/-
InfiniOps.Ci.RemoteDispatchTheorems — exit code 0 means that every job was
run, once, and passed.

What a reply says stays true: an agent only adds to its jobs, and a final
entry never changes (`Grows`). So the facts that the client holds on to are
carried along by every step of the world (`Ext`), and each kind of step has
to account for what it adds. `Sound` collects them; its clauses about
exchanges say which request an answer is about, those about the client
which exchange each of its jobs was dispatched in.

`firstJobId_acceptJobs` ties the steps of the handler of `/api/run` to the
handler itself (`Webhook`), which may send two responses.
-/
import InfiniOps.Ci.AgentReports
import InfiniOps.Ci.RemoteDispatch
import InfiniOps.Ci.WebhookTheorems

namespace InfiniOps.Ci.Remote

open Interleaving

/-! ## What an agent has said stays so -/

/-- An agent only adds to its jobs, and a success stays one. -/
structure Grows (a b : Agent) : Prop where
  accepted : a.accepted ⊆ b.accepted
  success : ∀ req ∈ a.accepted, a.state req = some .success → b.state req = some .success

theorem Grows.refl (a : Agent) : Grows a a := ⟨fun _ => id, fun _ _ => id⟩

theorem Grows.step {cfg : Config} {a b : Agent} (ha : (agentLts cfg).Reachable a)
    (h : Agent.Step cfg a () b) : Grows a b := by
  have hl := ledger_of_reachable ha
  have hforward := Forward.step hl h
  refine ⟨hforward.accepted.subset, fun req hreq hstate => ?_⟩
  obtain ⟨e, he, hestate, -⟩ := hl.entry hreq
  obtain ⟨e', he', hlater⟩ := hforward.entries req hreq e he
  have hfinal : e.state = .success := by
    rw [hstate] at hestate
    exact (Option.some.inj hestate).symm
  have hsame := hlater.final (by rw [hfinal]; rfl)
  subst hsame
  rw [Agent.state]
  rw [Agent.entry, Option.map_eq_some_iff] at he'
  obtain ⟨entry, hentry, hsame⟩ := he'
  rw [hentry, Option.map_some, ← hfinal]
  exact congrArg (fun e : Entry => some e.state) hsame

/-- A handler's request is a step of the agent. -/
theorem arrive_step (cfg : Config) {a : Agent} {req : JobRequest} (hfresh : req.jobId ∉ a.drawn) :
    Agent.Step cfg a () (a.arrive req) := by
  obtain ⟨⟨sh, threads⟩, accepted, results, drawn⟩ := a
  exact .arrive req hfresh

/-- What `get_job` tells is the state of the entry. -/
theorem getJob_spec {a : Agent} (hl : Ledger a) {jobId : String} {info : Agent.JobInfo}
    (h : a.getJob jobId = some info) :
    ∃ req ∈ a.accepted, req.jobId = jobId ∧
      (info.state = .success → a.state req = some .success) := by
  rw [Agent.getJob, Option.map_eq_some_iff] at h
  obtain ⟨entry, hentry, hinfo⟩ := h
  have hknown : ∃ req ∈ a.accepted, req.jobId = jobId := by
    by_contra hnone
    push Not at hnone
    rw [(hl.unknown jobId hnone).1] at hentry
    cases hentry
  obtain ⟨req, hreq, rfl⟩ := hknown
  refine ⟨req, hreq, rfl, fun hsuccess => ?_⟩
  have hstate : a.state req = some entry.state := by rw [Agent.state, hentry, Option.map_some]
  have hresult := hl.results req hreq _ hstate
  have hstatus : info.state = entry.state.status := by
    rw [← hinfo]
    split at hresult
    · have hreported := hresult.1
      cases hcase : a.results req.jobId with
      | none => rfl
      | some r =>
        rw [hcase] at hreported
        exact hreported.symm
    · rw [hresult]
  rw [hstatus] at hsuccess
  rw [hstate]
  cases hcase : entry.state <;> rw [hcase] at hsuccess <;> first | rfl | cases hsuccess

/-! ## Replacing one element -/

theorem exists_split {α : Type} {l : List α} {k : Nat} {a : α} (ha : l[k]? = some a) :
    ∃ pre post, l = pre ++ a :: post ∧ ∀ a', l.set k a' = pre ++ a' :: post := by
  obtain ⟨hk, rfl⟩ := List.getElem?_eq_some_iff.mp ha
  refine ⟨l.take k, l.drop (k + 1), ?_, fun a' => ?_⟩
  · rw [List.cons_getElem_drop_succ, List.take_append_drop]
  · rw [List.set_eq_take_append_cons_drop, if_pos hk]

theorem map_set_of_eq {α β : Type} {f : α → β} {l : List α} {k : Nat} {a a' : α}
    (ha : l[k]? = some a) (hf : f a' = f a) : (l.set k a').map f = l.map f := by
  obtain ⟨pre, post, rfl, hset⟩ := exists_split ha
  rw [hset, List.map_append, List.map_cons, hf, List.map_append, List.map_cons]

/-! ## Exchanges go on -/

/-- `e'` is `e` at a later time. -/
structure Exchange.Goes (e e' : Exchange) : Prop where
  url : e'.url = e.url
  ask : e'.ask = e.ask
  reqs : e.reqs ⊆ e'.reqs
  reply : ∀ reply, e.reply = some reply → e'.reply = some reply

theorem Exchange.Goes.refl (e : Exchange) : e.Goes e := ⟨rfl, rfl, fun _ => id, fun _ => id⟩

/-- The agents have grown and the exchanges gone on. -/
structure Ext (w w' : World) : Prop where
  agents : ∀ url, Grows (w.agents url) (w'.agents url)
  exchanges : ∀ {k : Nat} {e : Exchange}, w.exchanges[k]? = some e →
    ∃ e', w'.exchanges[k]? = some e' ∧ e.Goes e'

theorem Ext.of_agent {w w' : World} {url : String} {a : Agent}
    (hgrows : Grows (w.agents url) a) (hagents : w'.agents = Function.update w.agents url a)
    (hexchanges : ∀ {k : Nat} {e : Exchange}, w.exchanges[k]? = some e →
      ∃ e', w'.exchanges[k]? = some e' ∧ e.Goes e') : Ext w w' := by
  refine ⟨fun url' => ?_, hexchanges⟩
  rw [hagents]
  by_cases hurl : url' = url
  · subst hurl
    rw [Function.update_self]
    exact hgrows
  · rw [Function.update_of_ne hurl]
    exact .refl _

/-- Replacing one exchange by what it goes on to. -/
theorem goes_set {l : List Exchange} {k : Nat} {e e' : Exchange} (he : l[k]? = some e)
    (hgoes : e.Goes e') {k₁ : Nat} {e₁ : Exchange} (he₁ : l[k₁]? = some e₁) :
    ∃ e₂, (l.set k e')[k₁]? = some e₂ ∧ e₁.Goes e₂ := by
  obtain ⟨hk, -⟩ := List.getElem?_eq_some_iff.mp he
  by_cases hkk : k = k₁
  · subst hkk
    rw [he, Option.some.injEq] at he₁
    subst he₁
    exact ⟨e', List.getElem?_set_self hk, hgoes⟩
  · exact ⟨e₁, by rw [List.getElem?_set_ne hkk, he₁], .refl _⟩

theorem goes_append {l : List Exchange} {e : Exchange} {k : Nat} {e₁ : Exchange}
    (he₁ : l[k]? = some e₁) : ∃ e₂, (l ++ [e])[k]? = some e₂ ∧ e₁.Goes e₂ := by
  obtain ⟨hk, -⟩ := List.getElem?_eq_some_iff.mp he₁
  exact ⟨e₁, by rw [List.getElem?_append_left hk, he₁], .refl _⟩

/-! ## The invariant -/

/-- What an exchange says about its agent. -/
structure Exchange.Sound (agents : String → Agent) (e : Exchange) : Prop where
  names : ∀ names, e.names = some names → ∃ job, e.ask = .run job ∧ names = [job]
  reqs : e.reqs.map JobRequest.jobName <+: e.names.getD []
  jobIds : ∀ ids, e.reply = some (.jobIds ids) →
    ∃ req ∈ e.reqs, ids = [req.jobId] ∧ req ∈ (agents e.url).accepted
  info : ∀ info, e.reply = some (.info info) → ∃ req ∈ (agents e.url).accepted,
    e.ask = .job req.jobId ∧ (info.state = .success → (agents e.url).state req = some .success)

theorem Exchange.Sound.grows {agents agents' : String → Agent} {e : Exchange} (h : e.Sound agents)
    (hgrows : ∀ url, Grows (agents url) (agents' url)) : e.Sound agents' := by
  refine ⟨h.names, h.reqs, ?_, ?_⟩
  · intro ids hids
    obtain ⟨req, hreq, hone, haccepted⟩ := h.jobIds ids hids
    exact ⟨req, hreq, hone, (hgrows _).accepted haccepted⟩
  · intro info hinfo
    obtain ⟨req, haccepted, hask, hsuccess⟩ := h.info info hinfo
    exact ⟨req, (hgrows _).accepted haccepted, hask,
      fun hstate => (hgrows _).success req haccepted (hsuccess hstate)⟩

/-- The handler resolves one name, and submits no request but for it. -/
theorem Exchange.Sound.submitted {agents : String → Agent} {e : Exchange} (h : e.Sound agents) :
    e.submitted <+: e.dispatched.toList := by
  cases hnames : e.names with
  | none =>
    have hreqs := h.reqs
    rw [hnames, Option.getD_none, List.prefix_nil, List.map_eq_nil_iff] at hreqs
    rw [Exchange.submitted, hreqs]
    exact List.nil_prefix
  | some names =>
    obtain ⟨job, hask, rfl⟩ := h.names names hnames
    have hreqs := h.reqs
    rw [hnames, Option.getD_some] at hreqs
    have htargets : e.submitted = (e.reqs.map JobRequest.jobName).map fun name => ⟨name, e.url⟩ := by
      rw [List.map_map]
      rfl
    rw [htargets, Exchange.dispatched, hask]
    exact hreqs.map _

/-- A request is the only one, and is for the job that was asked for. -/
theorem Exchange.Sound.single {agents : String → Agent} {e : Exchange} (h : e.Sound agents)
    {req : JobRequest} (hreq : req ∈ e.reqs) : e.reqs = [req] ∧ e.ask = .run req.jobName := by
  have hmem : (⟨req.jobName, e.url⟩ : Target) ∈ e.submitted :=
    List.mem_map_of_mem (f := fun req : JobRequest => (⟨req.jobName, e.url⟩ : Target)) hreq
  have hask := Option.mem_toList.mp (h.submitted.subset hmem)
  have hlength := h.submitted.length_le
  rw [Exchange.submitted, List.length_map, hask, Option.toList_some, List.length_singleton] at hlength
  constructor
  · obtain ⟨req', hreqs⟩ := List.length_eq_one_iff.mp
      (Nat.le_antisymm hlength (List.length_pos_of_mem hreq))
    rw [hreqs, List.mem_singleton] at hreq
    rw [hreqs, hreq]
  · cases hcase : e.ask with
    | run job =>
      rw [Exchange.dispatched, hcase, Option.some.injEq, Target.mk.injEq] at hask
      rw [hask.1]
    | job jobId =>
      rw [Exchange.dispatched, hcase] at hask
      cases hask

/-- The job was dispatched in an exchange that was answered with its id, and
its agent is asked about that id. -/
def Poll.Sound (exchanges : List Exchange) (p : Poll) : Prop :=
  (∃ e, exchanges[p.sentIn]? = some e ∧ e.url = p.target.url ∧
    e.reply = some (.jobIds [p.jobId])) ∧
  ∀ k, p.asked = some k → ∃ e, exchanges[k]? = some e ∧ e.url = p.target.url ∧ e.ask = .job p.jobId

/-- A job that passed is the one that was dispatched. -/
def Result.Sound (w : World) (r : Result) : Prop :=
  r.passed = true → ∃ e, w.exchanges[r.sentIn]? = some e ∧ ∃ req ∈ e.reqs,
    req ∈ (w.agents e.url).accepted ∧ (w.agents e.url).state req = some .success

theorem Poll.Sound.ext {w w' : World} (hext : Ext w w') {p : Poll} (h : p.Sound w.exchanges) :
    p.Sound w'.exchanges := by
  obtain ⟨⟨e, he, hurl, hreply⟩, hasked⟩ := h
  refine ⟨?_, fun k hk => ?_⟩
  · obtain ⟨e', he', hgoes⟩ := hext.exchanges he
    exact ⟨e', he', hgoes.url.trans hurl, hgoes.reply _ hreply⟩
  · obtain ⟨e, he, hurl, hask⟩ := hasked k hk
    obtain ⟨e', he', hgoes⟩ := hext.exchanges he
    exact ⟨e', he', hgoes.url.trans hurl, hgoes.ask.trans hask⟩

theorem Result.Sound.ext {w w' : World} (hext : Ext w w') {r : Result} (h : r.Sound w) :
    r.Sound w' := by
  intro hpassed
  obtain ⟨e, he, req, hreq, haccepted, hstate⟩ := h hpassed
  obtain ⟨e', he', hgoes⟩ := hext.exchanges he
  refine ⟨e', he', req, hgoes.reqs hreq, ?_, ?_⟩ <;> rw [hgoes.url]
  · exact (hext.agents _).accepted haccepted
  · exact (hext.agents _).success req haccepted hstate

/-- The exchanges that a client dispatches jobs in. -/
def Client.sentIn (c : Client) : List Nat :=
  c.polls.map Poll.sentIn ++ c.results.map Result.sentIn ++ c.call.toList

/-- What holds of every world that a client with these targets comes to. -/
structure Sound (srv : String → Server) (targets : List Target) (w : World) : Prop where
  agents : ∀ url, (agentLts (srv url).config).Reachable (w.agents url)
  exchanges : ∀ e ∈ w.exchanges, e.Sound w.agents
  order : w.exchanges.filterMap Exchange.dispatched ++ w.client.unsent = targets
  /-- The client has every exchange that it dispatched a job in. -/
  tracked : ∀ k e job, w.exchanges[k]? = some e → e.ask = .run job → k ∈ w.client.sentIn
  call : ∀ k, w.client.call = some k → ∃ e t todo, w.exchanges[k]? = some e ∧
    w.client.todo = t :: todo ∧ e.url = t.url
  polls : ∀ p ∈ w.client.polls, p.Sound w.exchanges
  results : ∀ r ∈ w.client.results, r.Sound w

/-! ## Every step keeps it -/

/-- The exchanges are the same but for how far they are. -/
def SameAsks (l l' : List Exchange) : Prop :=
  l'.map (fun e => (e.url, e.ask)) = l.map fun e => (e.url, e.ask)

theorem SameAsks.dispatched {l l' : List Exchange} (h : SameAsks l l') :
    l'.filterMap Exchange.dispatched = l.filterMap Exchange.dispatched := by
  have hmap : ∀ l : List Exchange, l.filterMap Exchange.dispatched =
      (l.map fun e => (e.url, e.ask)).filterMap fun p => Exchange.dispatched { url := p.1, ask := p.2 } := by
    intro l
    rw [List.filterMap_map]
    rfl
  rw [hmap l', h, ← hmap l]

theorem SameAsks.getElem? {l l' : List Exchange} (h : SameAsks l l') {k : Nat} {e' : Exchange}
    (he' : l'[k]? = some e') : ∃ e, l[k]? = some e ∧ e.ask = e'.ask := by
  have hk := congrArg (·[k]?) h
  simp only [List.getElem?_map, he', Option.map_some] at hk
  obtain ⟨e, he, hsame⟩ := Option.map_eq_some_iff.mp hk.symm
  exact ⟨e, he, congrArg Prod.snd hsame⟩

theorem sameAsks_set {l : List Exchange} {k : Nat} {e e' : Exchange} (he : l[k]? = some e)
    (hgoes : e.Goes e') : SameAsks l (l.set k e') := by
  refine map_set_of_eq he ?_
  rw [hgoes.url, hgoes.ask]

section Steps

variable {srv : String → Server} {targets : List Target} {w w' : World}

theorem reachable_update {agents : String → Agent} {url : String} {a : Agent}
    (h : ∀ url, (agentLts (srv url).config).Reachable (agents url))
    (hstep : Agent.Step (srv url).config (agents url) () a) (url' : String) :
    (agentLts (srv url').config).Reachable (Function.update agents url a url') := by
  by_cases hurl : url' = url
  · subst hurl
    rw [Function.update_self]
    exact .step (h _) hstep
  · rw [Function.update_of_ne hurl]
    exact h url'

/-- A step that the client has no part in. -/
theorem Sound.outside (hs : Sound srv targets w) (hext : Ext w w') (hclient : w'.client = w.client)
    (hagents : ∀ url, (agentLts (srv url).config).Reachable (w'.agents url))
    (hexchanges : ∀ e ∈ w'.exchanges, e.Sound w'.agents)
    (hasks : SameAsks w.exchanges w'.exchanges) : Sound srv targets w' := by
  refine ⟨hagents, hexchanges, ?_, ?_, ?_, ?_, ?_⟩
  · rw [hasks.dispatched, hclient]
    exact hs.order
  · intro k e' job he' hask'
    obtain ⟨e, he, hask⟩ := hasks.getElem? he'
    rw [hclient]
    exact hs.tracked k e job he (hask.trans hask')
  · intro k hk
    rw [hclient] at hk ⊢
    obtain ⟨e, t, todo, he, htodo, hurl⟩ := hs.call k hk
    obtain ⟨e', he', hgoes⟩ := hext.exchanges he
    exact ⟨e', t, todo, he', htodo, hgoes.url.trans hurl⟩
  · rw [hclient]
    exact fun p hp => (hs.polls p hp).ext hext
  · rw [hclient]
    exact fun r hr => (hs.results r hr).ext hext

/-- A handler goes on. -/
theorem Sound.handler (hs : Sound srv targets w) {k : Nat} {e e' : Exchange}
    (he : w.exchanges[k]? = some e) (hgoes : e.Goes e') (hsound : e'.Sound w.agents) :
    Sound srv targets { w with exchanges := w.exchanges.set k e' } := by
  refine hs.outside ⟨fun _ => .refl _, goes_set he hgoes⟩ rfl hs.agents ?_ (sameAsks_set he hgoes)
  intro e₁ he₁
  rcases List.mem_or_eq_of_mem_set he₁ with he₁ | rfl
  · exact hs.exchanges e₁ he₁
  · exact hsound

/-- An exchange is answered. -/
theorem Sound.answer (hs : Sound srv targets w) {k : Nat} {e : Exchange} {reply : Reply}
    (he : w.exchanges[k]? = some e) (hnone : e.reply = none)
    (hsound : Exchange.Sound w.agents { e with reply := some reply }) :
    Sound srv targets
      { w with exchanges := w.exchanges.set k { e with reply := some reply } } :=
  hs.handler he ⟨rfl, rfl, fun _ => id, fun _ h => (nomatch hnone.symm.trans h)⟩ hsound

/-- A handler submits a request. -/
theorem Sound.serve (hs : Sound srv targets w) {k : Nat} {e : Exchange} {names : List String}
    {req : JobRequest} (he : w.exchanges[k]? = some e) (hnames : e.names = some names)
    (hreply : e.reply = none) (hnext : names[e.reqs.length]? = some req.jobName)
    (hfresh : req.jobId ∉ (w.agents e.url).drawn) :
    Sound srv targets
      { w with
        agents := Function.update w.agents e.url ((w.agents e.url).arrive req)
        exchanges := w.exchanges.set k { e with reqs := e.reqs ++ [req] } } := by
  have hgoes : e.Goes { e with reqs := e.reqs ++ [req] } :=
    ⟨rfl, rfl, List.subset_append_left _ _, fun _ => id⟩
  have hstep := arrive_step (srv e.url).config hfresh
  have hext : Ext w { w with
      agents := Function.update w.agents e.url ((w.agents e.url).arrive req)
      exchanges := w.exchanges.set k { e with reqs := e.reqs ++ [req] } } :=
    .of_agent (.step (hs.agents _) hstep) rfl (goes_set he hgoes)
  refine hs.outside hext rfl ?_ ?_ (sameAsks_set he hgoes)
  · exact reachable_update hs.agents hstep
  · intro e' he'
    rcases List.mem_or_eq_of_mem_set he' with he' | rfl
    · exact (hs.exchanges e' he').grows hext.agents
    · have hold := hs.exchanges e (List.mem_of_getElem? he)
      refine ⟨hold.names, ?_, ?_, ?_⟩
      · have hleads := hold.reqs
        rw [hnames, Option.getD_some] at hleads
        show (e.reqs ++ [req]).map JobRequest.jobName <+: e.names.getD []
        rw [hnames, Option.getD_some, List.map_append]
        obtain ⟨hlt, hname⟩ := List.getElem?_eq_some_iff.mp hnext
        have hlt' : (e.reqs.map JobRequest.jobName).length < names.length := by
          rwa [List.length_map]
        have hlonger := List.concat_get_prefix hleads hlt'
        simp only [List.length_map, List.get_eq_getElem, hname] at hlonger
        exact hlonger
      · intro ids hids
        rw [hreply] at hids
        cases hids
      · intro info hinfo
        rw [hreply] at hinfo
        cases hinfo

/-- A step of the client that sends nothing. -/
theorem Sound.inside (hs : Sound srv targets w) {client : Client}
    (hunsent : client.unsent = w.client.unsent) (hsentIn : w.client.sentIn ⊆ client.sentIn)
    (hcall : ∀ k, client.call = some k → w.client.call = some k ∧ client.todo = w.client.todo)
    (hpolls : ∀ p ∈ client.polls, p.Sound w.exchanges) (hresults : ∀ r ∈ client.results, r.Sound w) :
    Sound srv targets { w with client } := by
  refine ⟨hs.agents, hs.exchanges, ?_, ?_, ?_, hpolls, hresults⟩
  · show _ ++ client.unsent = targets
    rw [hunsent]
    exact hs.order
  · exact fun k e job he hask => hsentIn (hs.tracked k e job he hask)
  · intro k hk
    obtain ⟨hk', htodo⟩ := hcall k hk
    show ∃ e t todo, _ ∧ client.todo = t :: todo ∧ _
    rw [htodo]
    exact hs.call k hk'

/-- The client sends a request. -/
theorem Sound.append (hs : Sound srv targets w) {url : String} {ask : Ask} {client : Client}
    (horder : (w.exchanges ++ [Exchange.mk url ask none [] none]).filterMap Exchange.dispatched ++
      client.unsent = targets)
    (hsentIn : w.client.sentIn ⊆ client.sentIn)
    (htracked : ∀ job, ask = .run job → w.exchanges.length ∈ client.sentIn)
    (hcall : ∀ k, client.call = some k → ∃ e t todo,
      (w.exchanges ++ [Exchange.mk url ask none [] none])[k]? = some e ∧ client.todo = t :: todo ∧
        e.url = t.url)
    (hpolls : ∀ p ∈ client.polls, p.Sound (w.exchanges ++ [Exchange.mk url ask none [] none]))
    (hresults : client.results = w.client.results) :
    Sound srv targets { w with exchanges := w.exchanges ++ [Exchange.mk url ask none [] none], client } := by
  have hext : Ext w { w with exchanges := w.exchanges ++ [Exchange.mk url ask none [] none], client } :=
    ⟨fun _ => .refl _, goes_append⟩
  refine ⟨hs.agents, ?_, horder, ?_, hcall, hpolls, ?_⟩
  · intro e he
    rcases List.mem_append.mp he with he | he
    · exact hs.exchanges e he
    · rw [List.mem_singleton.mp he]
      exact ⟨fun _ h => (nomatch h), List.nil_prefix, fun _ h => (nomatch h), fun _ h => (nomatch h)⟩
  · intro k e job he hask
    have he' : (w.exchanges ++ [Exchange.mk url ask none [] none])[k]? = some e := he
    rw [List.getElem?_append] at he'
    split at he'
    · exact hsentIn (hs.tracked k e job he' hask)
    · obtain ⟨hk, hsame⟩ := List.getElem?_eq_some_iff.mp he'
      have hlast : k = w.exchanges.length := by
        rw [List.length_singleton] at hk
        omega
      subst hlast
      simp only [Nat.sub_self, List.getElem_cons_zero] at hsame
      exact htracked job (by rw [← hask, ← hsame])
  · rw [hresults]
    exact fun r hr => (hs.results r hr).ext hext

theorem Sound.send (hs : Sound srv targets w) {t : Target} {todo : List Target}
    (htodo : w.client.todo = t :: todo) (hcall : w.client.call = none) :
    Sound srv targets
      { w with
        exchanges := w.exchanges ++ [{ url := t.url, ask := .run t.name }]
        client := { w.client with call := some w.exchanges.length } } := by
  have hext : Ext w { w with exchanges := w.exchanges ++ [⟨t.url, .run t.name, none, [], none⟩] } :=
    ⟨fun _ => .refl _, goes_append⟩
  refine hs.append ?_ ?_ ?_ ?_ ?_ rfl
  · have horder := hs.order
    rw [Client.unsent, hcall, htodo] at horder
    rw [List.filterMap_append, Client.unsent, htodo]
    simpa [Exchange.dispatched] using horder
  · intro k hk
    simp only [Client.sentIn, hcall, Option.toList_none, List.append_nil] at hk
    exact List.mem_append_left _ hk
  · intro _ _
    simp [Client.sentIn]
  · intro k hk
    cases hk
    exact ⟨_, t, todo, List.getElem?_concat_length, htodo, rfl⟩
  · exact fun p hp => (hs.polls p hp).ext hext

theorem Sound.poll (hs : Sound srv targets w) {pre post : List Poll} {p : Poll}
    (hpolls : w.client.polls = pre ++ p :: post) :
    Sound srv targets
      { w with
        exchanges := w.exchanges ++ [{ url := p.target.url, ask := .job p.jobId }]
        client :=
          { w.client with
            polls := pre ++ { p with asked := some w.exchanges.length } :: post } } := by
  have hext : Ext w { w with exchanges := w.exchanges ++ [⟨p.target.url, .job p.jobId, none, [], none⟩] } :=
    ⟨fun _ => .refl _, goes_append⟩
  refine hs.append ?_ ?_ ?_ ?_ ?_ rfl
  · have hnone : [Exchange.mk p.target.url (.job p.jobId) none [] none].filterMap
        Exchange.dispatched = [] := rfl
    rw [List.filterMap_append, hnone, List.append_nil]
    exact hs.order
  · intro k hk
    simpa [Client.sentIn, hpolls] using hk
  · intro _ h
    cases h
  · intro k hk
    obtain ⟨e, t, todo, he, htodo, hurl⟩ := hs.call k hk
    obtain ⟨e', he', hgoes⟩ := hext.exchanges he
    exact ⟨e', t, todo, he', htodo, hgoes.url.trans hurl⟩
  · intro q hq
    have hold := fun q hq => (hs.polls q hq).ext hext
    rw [hpolls] at hold
    simp only [List.mem_append, List.mem_cons] at hq hold
    rcases hq with hq | rfl | hq
    · exact hold q (.inl hq)
    · refine ⟨(hold p (.inr (.inl rfl))).1, fun k hk => ?_⟩
      cases hk
      exact ⟨_, List.getElem?_concat_length, rfl, rfl⟩
    · exact hold q (.inr (.inr hq))

/-- A poll returns, with a result for its job. -/
theorem Sound.pollEnds (hs : Sound srv targets w) {pre post : List Poll} {p : Poll}
    (hpolls : w.client.polls = pre ++ p :: post) {outcome : Outcome}
    (hresult : Result.Sound w ⟨p.target, p.sentIn, outcome⟩) :
    Sound srv targets
      { w with
        client :=
          { w.client with
            polls := pre ++ post
            results := w.client.results ++ [⟨p.target, p.sentIn, outcome⟩] } } := by
  refine hs.inside rfl ?_ (fun _ hk => ⟨hk, rfl⟩) ?_ ?_
  · intro k hk
    simp only [Client.sentIn, hpolls, List.map_append, List.map_cons, List.mem_append,
      List.mem_cons, List.map_nil, List.not_mem_nil, or_false] at hk ⊢
    tauto
  · intro q hq
    refine hs.polls q ?_
    rw [hpolls]
    simp only [List.mem_append, List.mem_cons] at hq ⊢
    tauto
  · intro r hr
    rcases List.mem_append.mp hr with hr | hr
    · exact hs.results r hr
    · rw [List.mem_singleton.mp hr]
      exact hresult

/-- A dispatch returns. The job is polled for, or has failed. -/
theorem Sound.sendEnds (hs : Sound srv targets w) {t : Target} {todo : List Target} {k : Nat}
    (htodo : w.client.todo = t :: todo) (hcall : w.client.call = some k) {polls : List Poll}
    {results : List Result} (hpolls : ∀ p ∈ polls, p.sentIn = k ∧ p.Sound w.exchanges)
    (hresults : ∀ r ∈ results, r.sentIn = k ∧ r.passed = false)
    (hsome : polls ≠ [] ∨ results ≠ []) :
    Sound srv targets
      { w with
        client :=
          { todo
            call := none
            polls := w.client.polls ++ polls
            results := w.client.results ++ results } } := by
  refine hs.inside ?_ ?_ (fun _ hk => by cases hk) ?_ ?_
  · rw [Client.unsent, Client.unsent, hcall, htodo]
    rfl
  · have hk : k ∈ polls.map Poll.sentIn ∨ k ∈ results.map Result.sentIn := by
      rcases hsome with hsome | hsome
      · obtain ⟨p, hp⟩ := List.exists_mem_of_ne_nil _ hsome
        exact .inl ((hpolls p hp).1 ▸ List.mem_map_of_mem hp)
      · obtain ⟨r, hr⟩ := List.exists_mem_of_ne_nil _ hsome
        exact .inr ((hresults r hr).1 ▸ List.mem_map_of_mem hr)
    intro k' hk'
    simp only [Client.sentIn, hcall, Option.toList_some, Option.toList_none, List.map_append,
      List.mem_append, List.mem_singleton, List.append_nil] at hk' ⊢
    rcases hk' with (hk' | hk') | rfl
    · exact .inl (.inl hk')
    · exact .inr (.inl hk')
    · exact hk.elim (fun h => .inl (.inr h)) fun h => .inr (.inr h)
  · intro p hp
    rcases List.mem_append.mp hp with hp | hp
    · exact hs.polls p hp
    · exact (hpolls p hp).2
  · intro r hr
    rcases List.mem_append.mp hr with hr | hr
    · exact hs.results r hr
    · intro hpassed
      rw [(hresults r hr).2] at hpassed
      cases hpassed

/-- A job that has a final state answers for itself. -/
theorem Sound.result_of_reply (hs : Sound srv targets w) {p : Poll} {k : Nat} {e : Exchange}
    {info : Agent.JobInfo} (hp : p ∈ w.client.polls) (hasked : p.asked = some k)
    (he : w.exchanges[k]? = some e) (hreply : e.reply = some (.info info)) :
    Result.Sound w ⟨p.target, p.sentIn, .info info⟩ := by
  intro hpassed
  obtain ⟨⟨sent, hsent, hsenturl, hids⟩, hask⟩ := hs.polls p hp
  obtain ⟨e', he', hurl, hask'⟩ := hask k hasked
  rw [he, Option.some.injEq] at he'
  subst he'
  obtain ⟨req, haccepted, hasked', hsuccess⟩ :=
    (hs.exchanges e (List.mem_of_getElem? he)).info info hreply
  obtain ⟨req', hreq', hone, haccepted'⟩ :=
    (hs.exchanges sent (List.mem_of_getElem? hsent)).jobIds _ hids
  -- the id that was asked for is the one that the dispatch was answered with
  have hid : req.jobId = req'.jobId := by
    have hjobId : p.jobId = req'.jobId := by simpa using hone
    rw [hask'] at hasked'
    rw [← hjobId]
    exact (Ask.job.inj hasked').symm
  rw [hurl, ← hsenturl] at haccepted hsuccess
  have hsame : req = req' :=
    List.inj_on_of_nodup_map (ledger_of_reachable (hs.agents _)).ids_accepted haccepted
      haccepted' hid
  subst hsame
  exact ⟨sent, hsent, req, hreq', haccepted, hsuccess (by simpa [Result.passed] using hpassed)⟩

end Steps

/-! ## Every world -/

/-- A name that is given is the only one that is resolved. -/
theorem resolveJobNames_name {h : WebhookHost} {srv : Server} {job : String} (hjob : job ≠ "")
    {names : List String} (hresolve : resolveJobNames h srv (.str job) = .ok names) :
    names = [job] := by
  have htruthy : (Json.str job).truthy = true := by simpa [Json.truthy] using hjob
  rw [resolveJobNames, if_pos htruthy] at hresolve
  split at hresolve
  · exact (Except.ok.inj hresolve).symm
  · cases hresolve

/-- Submitting one job by its name. -/
theorem submitJobs_name (h : WebhookHost) (srv : Server) {job : String} (hjob : job ≠ "")
    (s : Scheduler) :
    (∃ s' e, submitJobs h srv (.str job) s = ([], s', .error e)) ∨
      (∃ r s', 400 ≤ r.status ∧ submitJobs h srv (.str job) s = ([r], s', .ok [])) ∨
      resolveJobNames h srv (.str job) = .ok [job] ∧ (h.before 0 s).queue.length < maxQueueSize ∧
        ∃ s', submitJobs h srv (.str job) s = ([], s', .ok [h.newId 0]) := by
  cases hresolve : resolveJobNames h srv (.str job) with
  | error e =>
    rw [submitJobs, hresolve]
    cases e with
    | valueError message => exact .inr (.inl ⟨_, s, le_rfl, rfl⟩)
    | attributeError => exact .inl ⟨s, _, rfl⟩
    | typeError => exact .inl ⟨s, _, rfl⟩
    | queueFull message => exact .inl ⟨s, _, rfl⟩
    | other e => exact .inl ⟨s, _, rfl⟩
  | ok names =>
    obtain rfl := resolveJobNames_name hjob hresolve
    rw [submitJobs, hresolve]
    dsimp only
    rw [submitLoop, Traced.bind_step]
    by_cases hroom : (h.before 0 s).queue.length < maxQueueSize
    · rw [submit_eq srv 0 job hroom]
      cases (Scheduler.trySchedule srv.config (h.detections 0) _).2 with
      | none => exact .inr (.inr ⟨rfl, hroom, _, rfl⟩)
      | some e => exact .inl ⟨_, _, rfl⟩
    · rw [submit, if_pos (Nat.not_lt.mp hroom)]
      exact .inr (.inl ⟨_, _, by decide, rfl⟩)

/-- The client reads an id only if the handler resolved the one name and the
queue had room for it, and then it is the id of that request. A second
response of the handler is not read. -/
theorem firstJobId_acceptJobs {h : WebhookHost} {srv : Server} {job jobId : String} (hjob : job ≠ "")
    {s : Scheduler} (hid : firstJobId ((acceptJobs h srv (.str job)).sent s) = some jobId) :
    resolveJobNames h srv (.str job) = .ok [job] ∧
      (h.before 0 s).queue.length < maxQueueSize ∧ jobId = h.newId 0 := by
  unfold acceptJobs Traced.sent at hid
  rcases submitJobs_name h srv hjob s with
    ⟨s', e, hrun⟩ | ⟨r, s', hstatus, hrun⟩ | ⟨hresolve, hroom, s', hrun⟩
  · rw [Traced.bind_of_error hrun] at hid
    cases hid
  · rw [Traced.bind_of_ok hrun] at hid
    simp [firstJobId, hstatus] at hid
  · rw [Traced.bind_of_ok hrun] at hid
    have hone : some (h.newId 0) = some jobId := by
      rw [← hid]
      rfl
    exact ⟨hresolve, hroom, (Option.some.inj hone).symm⟩

section Worlds

variable {hosts : String → WebhookHost} {srv : String → Server} {targets : List Target} {w : World}

theorem Sound.init (h : (worldLts hosts srv targets).init w) : Sound srv targets w := by
  obtain ⟨agents, exchanges, client⟩ := w
  obtain ⟨hagents, hexchanges, hclient⟩ := h
  cases hexchanges
  cases hclient
  exact ⟨hagents, by simp, rfl, by simp, fun _ h => (nomatch h), by simp, by simp⟩

theorem Sound.step (hnames : ∀ t ∈ targets, t.name ≠ "") (hs : Sound srv targets w) {w' : World}
    (hstep : Step hosts srv w () w') : Sound srv targets w' := by
  cases hstep with
  | agent url h =>
    have hext : Ext w { w with agents := Function.update w.agents url _ } :=
      .of_agent (.step (hs.agents url) h) rfl fun he => ⟨_, he, .refl _⟩
    exact hs.outside hext rfl (reachable_update hs.agents h)
      (fun e he => (hs.exchanges e he).grows hext.agents) rfl
  | @resolve k e job names he hask hnone hreply hresolve =>
    have hmem : (⟨job, e.url⟩ : Target) ∈ targets := by
      rw [← hs.order]
      refine List.mem_append_left _ (List.mem_filterMap.mpr ⟨e, List.mem_of_getElem? he, ?_⟩)
      rw [Exchange.dispatched, hask]
    have hsound := hs.exchanges e (List.mem_of_getElem? he)
    have hreqs : e.reqs = [] := by
      have hreqs := hsound.reqs
      rwa [hnone, Option.getD_none, List.prefix_nil, List.map_eq_nil_iff] at hreqs
    refine hs.handler he ⟨rfl, rfl, fun _ => id, fun _ => id⟩ ⟨?_, ?_, hsound.jobIds, hsound.info⟩
    · intro names' hnames'
      cases hnames'
      exact ⟨job, hask, resolveJobNames_name (hnames _ hmem) hresolve⟩
    · show e.reqs.map JobRequest.jobName <+: names
      rw [hreqs]
      exact List.nil_prefix
  | @serve k e names req he hresolved hreply hnext haccepted hfresh =>
    exact hs.serve he hresolved hreply hnext hfresh
  | @answerRun k e names he hresolved hreply hlength haccepted =>
    have hsound := hs.exchanges e (List.mem_of_getElem? he)
    obtain ⟨job, hask, rfl⟩ := hsound.names names hresolved
    obtain ⟨req, hreqs⟩ := List.length_eq_one_iff.mp hlength
    refine hs.answer he hreply ⟨hsound.names, hsound.reqs, ?_, fun _ h => (nomatch h)⟩
    intro ids hids
    cases hids
    have hreq : req ∈ e.reqs := hreqs ▸ List.mem_singleton_self req
    exact ⟨req, hreq, by rw [hreqs]; rfl, haccepted req hreq⟩
  | @answerJob k e jobId he hask hreply hlock =>
    have hsound := hs.exchanges e (List.mem_of_getElem? he)
    refine hs.answer he hreply ⟨hsound.names, hsound.reqs, ?_, ?_⟩
    · intro ids hids
      cases hget : (w.agents e.url).getJob jobId <;> simp [jobReply, hget] at hids
    · intro info hinfo
      cases hget : (w.agents e.url).getJob jobId with
      | none => simp [jobReply, hget] at hinfo
      | some info' =>
        simp only [jobReply, hget, Option.some.injEq, Reply.info.injEq] at hinfo
        subst hinfo
        obtain ⟨req, haccepted, hid, hsuccess⟩ :=
          getJob_spec (ledger_of_reachable (hs.agents _)) hget
        exact ⟨req, haccepted, hid.symm ▸ hask, hsuccess⟩
  | @fail k e he hreply =>
    have hsound := hs.exchanges e (List.mem_of_getElem? he)
    exact hs.answer he hreply
      ⟨hsound.names, hsound.reqs, fun _ h => (nomatch h), fun _ h => (nomatch h)⟩
  | send htodo hcall => exact hs.send htodo hcall
  | @sent t todo k e jobId ids htodo hcall he hreply hne =>
    obtain ⟨e', t', todo', he', htodo', hurl⟩ := hs.call k hcall
    cases he.symm.trans he'
    cases htodo.symm.trans htodo'
    obtain ⟨req, -, hids, -⟩ := (hs.exchanges e (List.mem_of_getElem? he)).jobIds _ hreply
    have hone : jobId :: ids = [jobId] := by
      rw [List.cons.injEq] at hids
      rw [hids.2]
    have hpoll : Poll.Sound w.exchanges { target := t, jobId, sentIn := k } :=
      ⟨⟨e, he, hurl, hone ▸ hreply⟩, fun _ h => (nomatch h)⟩
    have hended := @Sound.sendEnds srv targets w hs t todo k htodo hcall
      [{ target := t, jobId, sentIn := k }] [] (by simpa using hpoll) (by simp) (.inl (by simp))
    simpa using hended
  | @sendFailed t todo k htodo hcall =>
    have hended := @Sound.sendEnds srv targets w hs t todo k htodo hcall []
      [{ target := t, sentIn := k, outcome := .error }] (by simp) (by simp [Result.passed])
      (.inr (by simp))
    simpa using hended
  | poll htodo hpolls hasked => exact hs.poll hpolls
  | @pollAgain pre post p hpolls =>
    refine hs.inside rfl ?_ (fun _ hk => ⟨hk, rfl⟩) ?_ hs.results
    · intro k hk
      simpa [Client.sentIn, hpolls] using hk
    · intro q hq
      have hold := hs.polls
      rw [hpolls] at hold
      simp only [List.mem_append, List.mem_cons] at hq hold
      rcases hq with hq | rfl | hq
      · exact hold q (.inl hq)
      · exact ⟨(hold p (.inr (.inl rfl))).1, fun _ h => (nomatch h)⟩
      · exact hold q (.inr (.inr hq))
  | pollDone hpolls hasked he hreply hfinal =>
    exact hs.pollEnds hpolls (hs.result_of_reply (by rw [hpolls]; simp) hasked he hreply)
  | pollTimeout hpolls hasked => exact hs.pollEnds hpolls fun h => (nomatch h)

theorem sound_of_reachable (hnames : ∀ t ∈ targets, t.name ≠ "")
    (h : (worldLts hosts srv targets).Reachable w) : Sound srv targets w :=
  h.invariant (fun _ => .init) fun _ _ _ hs hstep => hs.step hnames hstep

end Worlds

/-- What `cmd_run` dispatches are the jobs that it resolved, each to an
agent of its platform. -/
theorem jobsToDispatch_names {c : CmdRun} {h : WebhookHost} {targets : List Target}
    (htargets : c.jobsToDispatch h = some targets) :
    c.jobNames h = .ok (targets.map Target.name) ∧ targets ≠ [] ∧
      ∀ t ∈ targets, c.target t.name = some t := by
  have hall : ∀ (names : List String) (targets : List Target),
      names.mapM c.target = some targets →
        targets.map Target.name = names ∧ ∀ t ∈ targets, c.target t.name = some t := by
    intro names
    induction names with
    | nil =>
      intro targets h
      cases h
      exact ⟨rfl, by simp⟩
    | cons name names ih =>
      intro targets h
      rw [List.mapM_cons] at h
      obtain ⟨t, ht, h⟩ := Option.bind_eq_some_iff.mp h
      obtain ⟨rest, hrest, h⟩ := Option.bind_eq_some_iff.mp h
      cases h
      have hname : t.name = name := by
        have ht' := ht
        simp only [CmdRun.target] at ht'
        split at ht'
        · cases ht'
        · cases ht'
          rfl
      obtain ⟨hnames, htargets⟩ := ih rest hrest
      refine ⟨by rw [List.map_cons, hname, hnames], ?_⟩
      intro t' ht'
      rcases List.mem_cons.mp ht' with rfl | ht'
      · rw [hname, ht]
      · exact htargets t' ht'
  rw [CmdRun.jobsToDispatch] at htargets
  split at htargets
  · rename_i name names hnames
    obtain ⟨hmap, hmem⟩ := hall _ _ htargets
    refine ⟨by rw [hnames, hmap], ?_, hmem⟩
    rintro rfl
    cases hmap
  · cases htargets

/-- However many messages are lost or late, and whatever else the agents are
given to do: `cmd_run` asks for each job at most once, in the order of the
configuration, and of each request that it sends an agent submits at most
one job, the one that was asked for. So the jobs that the agents are given
are among those that it asks for, in that order. -/
theorem dispatched_at_most_once (hosts : String → WebhookHost) (srv : String → Server)
    (targets : List Target) (hnames : ∀ t ∈ targets, t.name ≠ "") (w : World)
    (h : (worldLts hosts srv targets).Reachable w) :
    w.exchanges.filterMap Exchange.dispatched <+: targets ∧
      (∀ e ∈ w.exchanges, e.submitted <+: e.dispatched.toList) ∧
      (w.exchanges.flatMap Exchange.submitted).Sublist targets := by
  have hs := sound_of_reachable hnames h
  have hleads : w.exchanges.filterMap Exchange.dispatched <+: targets := ⟨_, hs.order⟩
  have hsubmitted : ∀ e ∈ w.exchanges, e.submitted <+: e.dispatched.toList :=
    fun e he => (hs.exchanges e he).submitted
  refine ⟨hleads, hsubmitted, List.Sublist.trans ?_ hleads.sublist⟩
  rw [List.filterMap_eq_flatMap_toList]
  exact List.Sublist.flatMap_right _ fun e he => (hsubmitted e he).sublist

/-- If `cmd_run` exits with 0, and is no dry run, then each job that the
arguments select was asked for once, at the agent of its platform; the agent
submitted one request for it, and has recorded it as a success. From then on
this stays so. -/
theorem exit_zero_all_passed (c : CmdRun) (h : WebhookHost) (hosts : String → WebhookHost)
    (srv : String → Server) (targets : List Target) (htargets : c.jobsToDispatch h = some targets)
    (hnames : ∀ t ∈ targets, t.name ≠ "") (hdryRun : c.dryRun = false) (w : World)
    (hw : (worldLts hosts srv (c.todo targets)).Reachable w) (hexit : w.client.exitCode = some 0) :
    c.jobNames h = .ok ((w.exchanges.filterMap Exchange.dispatched).map Target.name) ∧
      (∀ t ∈ w.exchanges.filterMap Exchange.dispatched, c.target t.name = some t) ∧
      ∀ e ∈ w.exchanges, ∀ job, e.ask = .run job → ∃ req, e.reqs = [req] ∧ req.jobName = job ∧
        req ∈ (w.agents e.url).accepted ∧ (w.agents e.url).state req = some .success := by
  have htodo : c.todo targets = targets := by rw [CmdRun.todo, hdryRun]; rfl
  have hs := sound_of_reachable hnames (htodo ▸ hw)
  rw [Client.exitCode] at hexit
  split at hexit
  swap
  · cases hexit
  rename_i hdone
  simp only [Bool.and_eq_true, List.isEmpty_iff] at hdone
  obtain ⟨htodo, hpolls⟩ := hdone
  have hcall : w.client.call = none := by
    cases hcall : w.client.call with
    | none => rfl
    | some k =>
      obtain ⟨e, t, todo, -, hne, -⟩ := hs.call k hcall
      rw [htodo] at hne
      cases hne
  have hpassed : ∀ r ∈ w.client.results, r.passed = true := by
    split at hexit
    · rename_i hall
      exact List.all_eq_true.mp hall
    · cases hexit
  have hdispatched : w.exchanges.filterMap Exchange.dispatched = targets := by
    have horder := hs.order
    rwa [Client.unsent, hcall, htodo, List.append_nil] at horder
  obtain ⟨hjobNames, -, htarget⟩ := jobsToDispatch_names htargets
  rw [hdispatched]
  refine ⟨hjobNames, htarget, fun e he job hask => ?_⟩
  obtain ⟨k, hk⟩ := List.mem_iff_getElem?.mp he
  have hmem := hs.tracked k e job hk hask
  rw [Client.sentIn, hpolls, hcall] at hmem
  simp only [List.map_nil, List.nil_append, Option.toList_none, List.append_nil] at hmem
  obtain ⟨r, hr, rfl⟩ := List.mem_map.mp hmem
  obtain ⟨e', he', req, hreq, haccepted, hstate⟩ := hs.results r hr (hpassed r hr)
  cases hk.symm.trans he'
  obtain ⟨hsingle, hown⟩ := (hs.exchanges e he).single hreq
  rw [hask, Ask.run.injEq] at hown
  exact ⟨req, hsingle, hown.symm, haccepted, hstate⟩

/-! ## One job that passes -/

namespace OneTarget

/-- One job, which wants no GPU of its own. -/
def jobs : OrderedDict String CiJob :=
  ⟨[("nvidia_gpu",
    { platform := some "nvidia", resources := { gpuIds := some (.str "all") } })], by simp⟩

def server : Server := { platform := "nvidia", jobs }

def host : WebhookHost where
  hmacSha256 _ _ := []
  loads _ := .decodeError
  str _ := ""
  repr _ := ""
  gitCommit := .ok "0123456789abcdef"
  newId _ := ""
  before _ s := s
  between _ s := s
  detections _ _ := { gpus := .ok [], system := .ok { availableMemoryMb := .fin 0 } }

def run : CmdRun where
  jobs
  agents platform := if platform = "nvidia" then some "http://ci:8080" else none
  platform := none
  job := none
  dryRun := false

def target : Target := ⟨"nvidia_gpu", "http://ci:8080"⟩

theorem run_jobsToDispatch : run.jobsToDispatch host = some [target] := rfl

def req : JobRequest := ⟨"1f2e3d4c", "nvidia_gpu"⟩

def passed : JobResult := ⟨"1f2e3d4c", "nvidia_gpu", "0123456789abcdef", 0⟩

/-- Agents that have nothing to do, but for the one. -/
def agents (a : Agent) : String → Agent :=
  Function.update (fun _ => { sys := ⟨{}, []⟩ }) target.url a

abbrev lts : Lts World Unit := worldLts (fun _ => host) (fun _ => server) [target]

/-- The agent goes on. -/
theorem agent_goes {a b : Agent} {exchanges : List Exchange} {client : Client}
    (h : lts.Reachable ⟨agents a, exchanges, client⟩)
    (hstep : Agent.Step server.config a () b) :
    lts.Reachable ⟨agents b, exchanges, client⟩ := by
  have hself : agents a target.url = a := Function.update_self ..
  have hnext := Lts.Reachable.step h (@Step.agent (fun _ => host) (fun _ => server)
    ⟨agents a, exchanges, client⟩ b target.url (hself.symm ▸ hstep))
  have hagents : Function.update (agents a) target.url b = agents b := Function.update_idem ..
  rw [← hagents]
  exact hnext

theorem agents_self (a : Agent) : agents a target.url = a := Function.update_self ..

/-- The job has been accepted. -/
def acceptedAgent : Agent where
  sys :=
    ⟨{ jobs := Function.update (fun _ => none) req.jobId (some ⟨req, .queued, []⟩)
       queue := [{ req }]
       clock := 3 }, [.schedule]⟩
  accepted := [req]
  drawn := [req.jobId]

/-- It has been run and recorded. -/
def passedAgent : Agent where
  sys :=
    ⟨{ jobs :=
        Function.update (markRunning acceptedAgent.sys.sh.jobs ⟨req, .queued, []⟩ req []) req.jobId
          (some ⟨req, .success, []⟩)
       pool := ({} : ResourcePool).release []
       clock := 12
       lastRelease := 10
       selected := [⟨req, []⟩]
       released := [⟨req, []⟩] }, [.done, .schedule]⟩
  accepted := [req]
  results := Function.update (fun _ => none) req.jobId (some passed)
  drawn := [req.jobId]

def anyDetection : Detection := { gpus := .ok [], system := .ok { availableMemoryMb := .fin 0 } }

open OneJob (agent_step)

theorem accepted_goes {exchanges : List Exchange} {client : Client}
    (h : lts.Reachable ⟨agents ({ sys := ⟨{}, []⟩ : Agent }.arrive req), exchanges, client⟩) :
    lts.Reachable ⟨agents acceptedAgent, exchanges, client⟩ := by
  have h1 := agent_goes h (agent_step (.submit req) [] _ _ anyDetection rfl (by simp))
  exact h1

theorem passed_goes {exchanges : List Exchange} {client : Client}
    (h : lts.Reachable ⟨agents acceptedAgent, exchanges, client⟩) :
    lts.Reachable ⟨agents passedAgent, exchanges, client⟩ := by
  have h1 := agent_goes h (agent_step .schedule [req] _ _ anyDetection rfl (by simp))
  have h2 := agent_goes h1 (agent_step (.loop [] []) [req] _ _ anyDetection rfl (by simp))
  have h3 := agent_goes h2
    (agent_step (.consider { req } [] []) [req] _ _ anyDetection rfl (by simp))
  have h4 := agent_goes h3 (agent_step (.loop [] [⟨req, []⟩]) [req] _ _ anyDetection rfl (by simp))
  have h5 := agent_goes h4 (agent_step (.launch [⟨req, []⟩]) [req] _ _ anyDetection rfl (by simp))
  have h6 := agent_goes h5 (agent_step (.launch []) [req] _ _ anyDetection rfl (by simp))
  have h7 := agent_goes h6 (Agent.Step.start rfl)
  have h8 := agent_goes h7 (@Agent.Step.thread server.config _ _ [.done] [] (.run ⟨req, []⟩)
    (.record ⟨req, []⟩ .success) [req] _ _ anyDetection .success none rfl trivial)
  have h9 := agent_goes h8 (@Agent.Step.thread server.config _ _ [.done] []
    (.record ⟨req, []⟩ .success) .schedule [req] _ _ anyDetection .success (some passed) rfl
    ⟨rfl, by simp [passed, req]⟩)
  exact h9

/-- The exchange in which the job is dispatched. -/
def dispatch : Exchange :=
  { url := target.url, ask := .run target.name, names := some [target.name], reqs := [req]
    reply := some (.jobIds [req.jobId]) }

/-- What the agent tells about it. -/
def info : Agent.JobInfo := ⟨req.jobId, req.jobName, .success, some 0⟩

theorem jobReply_passed : jobReply (agents passedAgent target.url) req.jobId = .info info := by
  rw [agents_self]
  rfl

def finalWorld : World where
  agents := agents passedAgent
  exchanges := [dispatch,
    { url := target.url, ask := .job req.jobId, reply := some (.info info) }]
  client := { todo := [], results := [⟨target, 0, .info info⟩] }

theorem idle_reachable (url : String) :
    (agentLts server.config).Reachable (agents { sys := ⟨{}, []⟩ } url) := by
  have hidle : (agentLts server.config).Reachable { sys := ⟨{}, []⟩ } :=
    .init ⟨⟨⟨{}, rfl, rfl⟩, rfl⟩, rfl, rfl, rfl⟩
  by_cases hurl : url = target.url
  · rw [hurl, agents_self]
    exact hidle
  · rw [agents, Function.update_of_ne hurl]
    exact hidle

theorem finalWorld_reachable : lts.Reachable finalWorld := by
  have h0 : lts.Reachable ⟨agents { sys := ⟨{}, []⟩ }, [], { todo := [target] }⟩ :=
    .init ⟨idle_reachable, rfl, rfl⟩
  have h1 := Lts.Reachable.step h0 (.send rfl rfl)
  have hfresh : req.jobId ∉ (agents { sys := ⟨{}, []⟩ } target.url).drawn := by
    rw [agents_self]
    exact List.not_mem_nil
  have h2 := Lts.Reachable.step (Lts.Reachable.step h1 (.resolve (k := 0) rfl rfl rfl rfl rfl))
    (.serve (k := 0) req rfl rfl rfl rfl (fun _ h => (nomatch h)) hfresh)
  have harrive : Function.update (agents { sys := ⟨{}, []⟩ }) target.url
      ((agents { sys := ⟨{}, []⟩ } target.url).arrive req) =
        agents (({ sys := ⟨{}, []⟩ } : Agent).arrive req) := by
    rw [agents_self]
    exact Function.update_idem ..
  have h3 := accepted_goes (harrive ▸ h2)
  have haccepted : req ∈ (agents acceptedAgent target.url).accepted := by
    rw [agents_self]
    exact List.mem_singleton.mpr rfl
  have h4 := Lts.Reachable.step h3 (.answerRun (k := 0) rfl rfl rfl rfl (by simpa using haccepted))
  have h5 := Lts.Reachable.step h4 (.sent (k := 0) rfl rfl rfl rfl (by decide))
  have h6 := passed_goes h5
  have h7 := Lts.Reachable.step h6 (@Step.poll _ _ _ [] [] _ rfl rfl rfl)
  have hlock : (agents passedAgent target.url).sys.sh.lock = false := by
    rw [agents_self]
    rfl
  have h8 := Lts.Reachable.step h7 (.answerJob (k := 1) rfl rfl rfl hlock)
  have h9 : lts.Reachable ⟨agents passedAgent,
      [dispatch, ⟨target.url, .job req.jobId, none, [],
        some (jobReply (agents passedAgent target.url) req.jobId)⟩],
      { todo := [], polls := [⟨target, req.jobId, 0, some 1⟩] }⟩ := h8
  rw [jobReply_passed] at h9
  have h10 := Lts.Reachable.step h9
    (@Step.pollDone _ _ _ [] [] _ 1 _ info rfl rfl rfl rfl (.inl rfl))
  exact h10

end OneTarget

open OneTarget in
theorem dispatched_at_most_once_one :
    finalWorld.exchanges.filterMap Exchange.dispatched <+: [target] ∧
      (∀ e ∈ finalWorld.exchanges, e.submitted <+: e.dispatched.toList) ∧
      (finalWorld.exchanges.flatMap Exchange.submitted).Sublist [target] :=
  dispatched_at_most_once (fun _ => host) (fun _ => server) [target] (by decide) finalWorld
    finalWorld_reachable

open OneTarget in
theorem exit_zero_all_passed_one :
    run.jobNames host =
        .ok ((finalWorld.exchanges.filterMap Exchange.dispatched).map Target.name) ∧
      (∀ t ∈ finalWorld.exchanges.filterMap Exchange.dispatched, run.target t.name = some t) ∧
      ∀ e ∈ finalWorld.exchanges, ∀ job, e.ask = .run job → ∃ req, e.reqs = [req] ∧
        req.jobName = job ∧ req ∈ (finalWorld.agents e.url).accepted ∧
          (finalWorld.agents e.url).state req = some .success :=
  exit_zero_all_passed run host (fun _ => host) (fun _ => server) [target] run_jobsToDispatch
    (by decide) rfl finalWorld finalWorld_reachable rfl

end InfiniOps.Ci.Remote
