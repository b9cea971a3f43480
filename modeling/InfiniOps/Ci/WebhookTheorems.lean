/-
InfiniOps.Ci.WebhookTheorems — which POST requests are answered exactly once.

From the inside out: a loop of submissions is silent if there is room for
all of them, and otherwise raises or answers in the caller's place
(`submitLoop_room`, `submitLoop_no_room`); so the two handlers, which answer
after it, answer once exactly if the jobs can be submitted
(`acceptJobs_answered_iff`). Around it, each branch is regular or does not
answer once.
-/
import InfiniOps.Ci.DockerArgsTheorems
import InfiniOps.Ci.Webhook
import InfiniOps.Lib.Except

namespace InfiniOps.Ci

/-! ## Responses -/

theorem answered_singleton_iff (r : Response) :
    Answered [r] ↔ (400 ≤ r.status → r.accepted = false) := by
  constructor
  · intro h
    exact h.consistent r (by simp) r (by simp)
  · intro h
    refine ⟨rfl, ?_⟩
    simpa using h

@[simp] theorem not_answered_nil : ¬ Answered [] := fun h => absurd h.one (by simp)

theorem not_answered_pair (r r' : Response) : ¬ Answered [r, r'] := fun h => absurd h.one (by simp)

/-- A response without an acceptance. -/
@[simp] theorem answered_respondJson (status : Nat) (key : String) (value : Json) (s : Scheduler)
    (h : key ≠ "accepted") : Answered ((respondJson status [(key, value)]).sent s) := by
  rw [respondJson, Traced.sent_emit, answered_singleton_iff]
  intro _
  have hkey : ("accepted" == key) = false := beq_false_of_ne (Ne.symm h)
  simp [Response.accepted, List.lookup_cons, hkey]

/-- What raises is not answered. -/
theorem answered_ofExcept_bind_iff {α : Type} (x : Except HandlerExc α) (f : α → Handler Unit)
    (s : Scheduler) :
    Answered ((Traced.ofExcept x >>= f).sent s) ↔ ∃ a, x = .ok a ∧ Answered ((f a).sent s) := by
  unfold Traced.sent
  cases x with
  | ok a => simp
  | error e => simp

/-! ## Payloads -/

@[simp] theorem Json.get_dict (entries : List (String × Json)) (key : String) (default : Json) :
    (Json.dict entries).get key default = .ok ((entries.lookup key).getD default) := rfl

theorem Json.get_eq_ok {v default x : Json} {key : String} :
    v.get key default = .ok x ↔ ∃ entries, v = .dict entries ∧ (entries.lookup key).getD default = x := by
  cases v <;> simp [Json.get]

theorem Json.removePrefix_eq_ok {v x : Json} {pre : String} :
    v.removePrefix pre = .ok x ↔ ∃ s, v = .str s ∧ .str ((afterPrefix pre s).getD s) = x := by
  cases v <;> simp [Json.removePrefix]

/-- Nothing is left of a text without its prefix only if it is empty or the
prefix itself. -/
theorem truthy_afterPrefix (pre s : String) :
    (Json.str ((afterPrefix pre s).getD s)).truthy = true ↔ s ≠ "" ∧ s ≠ pre := by
  by_cases hpre : pre.toList.isPrefixOf s.toList = true
  · obtain ⟨rest, hrest⟩ := List.isPrefixOf_iff_prefix.mp hpre
    have hs : s = pre ++ .ofList rest := by
      rw [← String.toList_inj, String.toList_append, String.toList_ofList, hrest]
    subst hs
    rw [afterPrefix_append]
    simp [Json.truthy]
    tauto
  · have hne : s ≠ pre := fun heq => hpre (by simp [heq])
    simp [afterPrefix, hpre, Json.truthy, hne]

theorem parsePush_eq_ok {payload branch sha : Json} :
    parsePush payload = .ok (branch, sha) ↔ ∃ entries ref, payload = .dict entries ∧
      (entries.lookup "ref").getD (.str "") = .str ref ∧
      branch = .str ((afterPrefix "refs/heads/" ref).getD ref) ∧
      sha = (entries.lookup "after").getD (.str "") := by
  unfold parsePush
  simp only [bind_eq_ok, Json.get_eq_ok, Json.removePrefix_eq_ok]
  constructor
  · rintro ⟨_, ⟨entries, rfl, rfl⟩, _, ⟨ref, href, rfl⟩, _, ⟨_, hdict, rfl⟩, hret⟩
    obtain ⟨rfl, rfl⟩ := Prod.mk.inj (Except.ok.inj hret)
    obtain rfl := Json.dict.inj hdict
    exact ⟨entries, ref, rfl, href, rfl, rfl⟩
  · rintro ⟨entries, ref, rfl, href, rfl, rfl⟩
    exact ⟨_, ⟨entries, rfl, rfl⟩, _, ⟨ref, href, rfl⟩, _, ⟨entries, rfl, rfl⟩, rfl⟩

theorem parsePullRequest_eq_ok {payload branch sha : Json} :
    parsePullRequest payload = .ok (branch, sha) ↔ ∃ entries pr head, payload = .dict entries ∧
      (entries.lookup "pull_request").getD (.dict []) = .dict pr ∧
      (pr.lookup "head").getD (.dict []) = .dict head ∧
      branch = (head.lookup "ref").getD (.str "") ∧ sha = (head.lookup "sha").getD (.str "") := by
  unfold parsePullRequest
  simp only [bind_eq_ok, Json.get_eq_ok]
  constructor
  · rintro ⟨_, ⟨entries, rfl, rfl⟩, _, ⟨pr, hpr, rfl⟩, _, ⟨head, hhead, rfl⟩, _, ⟨_, hdict, rfl⟩, hret⟩
    obtain ⟨rfl, rfl⟩ := Prod.mk.inj (Except.ok.inj hret)
    obtain rfl := Json.dict.inj (hhead.symm.trans hdict)
    exact ⟨entries, pr, head, rfl, hpr, hhead, rfl, rfl⟩
  · rintro ⟨entries, pr, head, rfl, hpr, hhead, rfl, rfl⟩
    exact ⟨_, ⟨entries, rfl, rfl⟩, _, ⟨pr, hpr, rfl⟩, _, ⟨head, hhead, rfl⟩, _, ⟨head, hhead, rfl⟩, rfl⟩

variable (h : WebhookHost) (srv : Server)

/-! ## Signatures -/

theorem isAscii_digitChar : ∀ n < 16, isAscii (Nat.digitChar n) = true := by decide

theorem all_isAscii_hexdigest (bytes : List UInt8) :
    (hexdigest bytes).toList.all isAscii = true := by
  rw [hexdigest, String.toList_ofList, List.all_flatMap, List.all_eq_true]
  intro b _
  have hb : b.toNat < 256 := b.toNat_lt
  simp [isAscii_digitChar (b.toNat / 16) (by omega), isAscii_digitChar (b.toNat % 16) (by omega)]

theorem compareDigest_isOk_iff {a : String} (ha : a.toList.all isAscii = true) (b : String) :
    (∃ r, compareDigest a b = .ok r) ↔ b.toList.all isAscii = true := by
  unfold compareDigest
  by_cases hb : b.toList.all isAscii = true
  · simp [ha, hb]
  · simp [ha, hb]

/-- The check of a signature returns if and only if the signature is ASCII. -/
theorem checkSignature_isOk_iff (req : Request) (body : List UInt8) :
    (∃ b, checkSignature h srv req body = .ok b) ↔
      (pyOr srv.webhookSecret "" ≠ "" →
        ((req.header "X-Hub-Signature-256").getD "").toList.all isAscii = true) := by
  unfold checkSignature
  by_cases hsecret : pyOr srv.webhookSecret "" = ""
  · simp [hsecret]
  · rw [if_neg hsecret, verifySignature]
    by_cases hsig : (req.header "X-Hub-Signature-256").getD "" = ""
    · simp [hsig]
    · have hexpected : ("sha256=" ++ hexdigest (h.hmacSha256 (pyOr srv.webhookSecret "") body)).toList.all
          isAscii = true := by
        rw [String.toList_append, List.all_append, all_isAscii_hexdigest]
        rfl
      rw [if_neg hsig, compareDigest_isOk_iff hexpected]
      simp [hsecret]

/-! ## Submission -/

/-- The names that are found are the jobs selected; without any, the lookup
raises. -/
theorem resolveJobNames_cases (job : Json) :
    JobsFound srv job ∧ resolveJobNames h srv job = .ok (selectedJobs srv job) ∨
      ¬ JobsFound srv job ∧ ∃ e, resolveJobNames h srv job = .error e := by
  unfold JobsFound resolveJobNames selectedJobs
  cases htruthy : job.truthy with
  | true =>
    cases job with
    | str name =>
      by_cases hname : name ∈ srv.jobs.keys
      · simp [hname]
      · simp [hname]
    | null => simp
    | bool b => simp
    | int n => simp
    | float x => simp
    | list l => simp
    | dict entries => simp
  | false =>
    by_cases hplatform : srv.platform = ""
    · simp [hplatform]
    · generalize List.filter _ srv.jobs.entries = matching
      by_cases hmatching : matching = []
      · simp [hplatform, hmatching]
      · simp [hplatform, hmatching]

variable {h}

/-- The state in which the `i`-th submission schedules. -/
def scheduledFrom (h : WebhookHost) (i : Nat) (name : String) (s : Scheduler) : Scheduler :=
  h.between i ((h.before i s).enqueue ⟨h.newId i, name⟩)

theorem scheduledFrom_registered (hkeeps : h.KeepsEntries) (i : Nat) (name : String) {s : Scheduler}
    (hreg : Registered s.jobs s.queue) :
    Registered (scheduledFrom h i name s).jobs (scheduledFrom h i name s).queue :=
  hkeeps.between i _ (Scheduler.enqueue_registered (hkeeps.before i s hreg) _)

/-- A submission that finds room schedules, and returns or raises as that
does. -/
theorem submit_eq (i : Nat) (name : String) {s : Scheduler}
    (hroom : (h.before i s).queue.length < maxQueueSize) :
    submit h srv i name s =
      (((scheduledFrom h i name s).trySchedule srv.config (h.detections i)).1,
        match ((scheduledFrom h i name s).trySchedule srv.config (h.detections i)).2 with
        | none => .ok (h.newId i)
        | some e => .error (.other e)) := by
  rw [submit, if_neg (Nat.not_le.mpr hroom)]
  unfold scheduledFrom
  rcases Scheduler.trySchedule srv.config (h.detections i) _ with ⟨t, _ | e⟩
  · rfl
  · rfl

theorem submit_room (hkeeps : h.KeepsEntries) (i : Nat) (name : String) {s : Scheduler}
    (hreg : Registered s.jobs s.queue) (hroom : (h.before i s).queue.length < maxQueueSize)
    (hcalls : CallsReturn srv.config (h.detections i) (scheduledFrom h i name s)) :
    submit h srv i name s =
      (((scheduledFrom h i name s).trySchedule srv.config (h.detections i)).1, .ok (h.newId i)) := by
  have hnone := (Scheduler.trySchedule_raised_iff srv.config (h.detections i)
    (scheduledFrom_registered hkeeps i name hreg)).mpr hcalls
  rw [submit_eq srv i name hroom, hnone]

/-- Without room, or with a call that raises, there is no id. -/
theorem submit_no_room (hkeeps : h.KeepsEntries) (i : Nat) (name : String) {s : Scheduler}
    (hreg : Registered s.jobs s.queue)
    (hbad : (h.before i s).queue.length < maxQueueSize →
      ¬ CallsReturn srv.config (h.detections i) (scheduledFrom h i name s)) :
    ∃ s', (∃ message, submit h srv i name s = (s', .error (.queueFull message))) ∨
      ∃ e, submit h srv i name s = (s', .error (.other e)) := by
  by_cases hroom : (h.before i s).queue.length < maxQueueSize
  · have hraises := mt (Scheduler.trySchedule_raised_iff srv.config (h.detections i)
      (scheduledFrom_registered hkeeps i name hreg)).mp (hbad hroom)
    obtain ⟨e, he⟩ := Option.ne_none_iff_exists'.mp hraises
    refine ⟨(Scheduler.trySchedule srv.config (h.detections i) (scheduledFrom h i name s)).1,
      .inr ⟨e, ?_⟩⟩
    rw [submit_eq srv i name hroom, he]
  · exact ⟨_, .inl ⟨_, if_pos (Nat.not_lt.mp hroom)⟩⟩

theorem submitLoop_room (hkeeps : h.KeepsEntries) (names : List String) (i : Nat)
    (jobIds : List String) {s : Scheduler} (hreg : Registered s.jobs s.queue)
    (hroom : RoomForAll h srv names i s) :
    ∃ s' jobIds', submitLoop h srv names i jobIds s = ([], s', .ok jobIds') := by
  induction names generalizing i jobIds s with
  | nil => exact ⟨s, jobIds, rfl⟩
  | cons name names ih =>
    obtain ⟨hqueue, hcalls, hrest⟩ := hroom
    have hsubmit := submit_room srv hkeeps i name hreg hqueue hcalls
    have hreg' := Scheduler.trySchedule_registered srv.config (h.detections i)
      (scheduledFrom_registered hkeeps i name hreg)
    obtain ⟨s', jobIds', hloop⟩ := ih (i + 1) (jobIds ++ [h.newId i]) hreg' hrest
    refine ⟨s', jobIds', ?_⟩
    rw [submitLoop, Traced.bind_step, hsubmit]
    exact hloop

/-- Without room for all, the loop raises or has sent a response. -/
theorem submitLoop_no_room (hkeeps : h.KeepsEntries) (names : List String) (i : Nat)
    (jobIds : List String) {s : Scheduler} (hreg : Registered s.jobs s.queue)
    (hroom : ¬ RoomForAll h srv names i s) :
    (∃ s' e, submitLoop h srv names i jobIds s = ([], s', .error e)) ∨
      ∃ r s' jobIds', submitLoop h srv names i jobIds s = ([r], s', .ok jobIds') := by
  induction names generalizing i jobIds s with
  | nil => exact absurd trivial hroom
  | cons name names ih =>
    by_cases hgood : (h.before i s).queue.length < maxQueueSize ∧
        CallsReturn srv.config (h.detections i) (scheduledFrom h i name s)
    · have hsubmit := submit_room srv hkeeps i name hreg hgood.1 hgood.2
      have hreg' := Scheduler.trySchedule_registered srv.config (h.detections i)
        (scheduledFrom_registered hkeeps i name hreg)
      have hrest := fun hrest => hroom ⟨hgood.1, hgood.2, hrest⟩
      rw [submitLoop, Traced.bind_step, hsubmit]
      exact ih (i + 1) (jobIds ++ [h.newId i]) hreg' hrest
    · obtain ⟨s', ⟨message, hsubmit⟩ | ⟨e, hsubmit⟩⟩ :=
        submit_no_room srv hkeeps i name hreg (not_and.mp hgood)
      · rw [submitLoop, Traced.bind_step, hsubmit]
        exact .inr ⟨_, s', jobIds, rfl⟩
      · rw [submitLoop, Traced.bind_step, hsubmit]
        exact .inl ⟨s', _, rfl⟩

theorem submitJobs_submittable (hkeeps : h.KeepsEntries) {job : Json} {s : Scheduler}
    (hreg : Registered s.jobs s.queue) (hjob : Submittable h srv job s) :
    ∃ s' jobIds, submitJobs h srv job s = ([], s', .ok jobIds) := by
  rcases resolveJobNames_cases h srv job with ⟨-, hnames⟩ | ⟨hnot, -⟩
  · rw [submitJobs, hnames]
    exact submitLoop_room srv hkeeps _ 0 [] hreg hjob.2
  · exact absurd hjob.1 hnot

/-- An unknown job is answered with 400 here, and a full queue with 503. -/
theorem submitJobs_not_submittable (hkeeps : h.KeepsEntries) {job : Json} {s : Scheduler}
    (hreg : Registered s.jobs s.queue) (hjob : ¬ Submittable h srv job s) :
    (∃ s' e, submitJobs h srv job s = ([], s', .error e)) ∨
      ∃ r s' jobIds, submitJobs h srv job s = ([r], s', .ok jobIds) := by
  rcases resolveJobNames_cases h srv job with ⟨hfound, hnames⟩ | ⟨-, e, he⟩
  · rw [submitJobs, hnames]
    exact submitLoop_no_room srv hkeeps _ 0 [] hreg fun hroom => hjob ⟨hfound, hroom⟩
  · rw [submitJobs, he]
    cases e with
    | valueError message => exact .inr ⟨_, s, [], rfl⟩
    | attributeError => exact .inl ⟨s, _, rfl⟩
    | typeError => exact .inl ⟨s, _, rfl⟩
    | queueFull message => exact .inl ⟨s, _, rfl⟩
    | other e => exact .inl ⟨s, _, rfl⟩

/-- Both handlers end with this: it answers once exactly if the jobs can be
submitted. -/
theorem acceptJobs_answered_iff (hkeeps : h.KeepsEntries) (job : Json) {s : Scheduler}
    (hreg : Registered s.jobs s.queue) :
    Answered ((acceptJobs h srv job).sent s) ↔ Submittable h srv job s := by
  unfold Traced.sent acceptJobs
  by_cases hjob : Submittable h srv job s
  · obtain ⟨s', jobIds, hrun⟩ := submitJobs_submittable srv hkeeps hreg hjob
    rw [Traced.bind_of_ok hrun]
    refine iff_of_true ((answered_singleton_iff _).mpr fun hstatus => ?_) hjob
    exact absurd hstatus (by simp)
  · refine iff_of_false ?_ hjob
    rcases submitJobs_not_submittable srv hkeeps hreg hjob with
      ⟨s', e, hrun⟩ | ⟨r, s', jobIds, hrun⟩
    · rw [Traced.bind_of_error hrun]
      exact not_answered_nil
    · rw [Traced.bind_of_ok hrun]
      exact not_answered_pair _ _

/-! ## The handlers -/

theorem acceptBranch_answered_iff (hkeeps : h.KeepsEntries) (branch sha : Json) {s : Scheduler}
    (hreg : Registered s.jobs s.queue) :
    Answered ((acceptBranch h srv branch sha).sent s) ↔
      (branch.truthy = true → sha.truthy = true → Submittable h srv .null s) := by
  unfold acceptBranch
  by_cases hfound : branch.truthy = true ∧ sha.truthy = true
  · simp [hfound, acceptJobs_answered_iff srv hkeeps .null hreg]
  · rw [if_pos (by simpa [Bool.or_eq_true, or_iff_not_imp_left] using hfound)]
    simp [answered_respondJson]
    tauto

/-- A push is answered once exactly if its payload is regular. -/
theorem push_answered_iff (hkeeps : h.KeepsEntries) (payload : Json) {s : Scheduler}
    (hreg : Registered s.jobs s.queue) :
    Answered ((handleEvent h srv "push" payload).sent s) ↔ PushRegular h srv payload s := by
  rw [handleEvent, if_pos rfl, answered_ofExcept_bind_iff]
  constructor
  · rintro ⟨⟨branch, sha⟩, hparse, hanswered⟩
    obtain ⟨entries, ref, hpayload, href, rfl, rfl⟩ := parsePush_eq_ok.mp hparse
    have hroom := (acceptBranch_answered_iff srv hkeeps _ _ hreg).mp hanswered
    refine ⟨entries, ref, hpayload, href, fun hempty hprefix => hroom ?_⟩
    exact (truthy_afterPrefix _ _).mpr ⟨hempty, hprefix⟩
  · rintro ⟨entries, ref, hpayload, href, hroom⟩
    refine ⟨_, parsePush_eq_ok.mpr ⟨entries, ref, hpayload, href, rfl, rfl⟩, ?_⟩
    refine (acceptBranch_answered_iff srv hkeeps _ _ hreg).mpr fun hbranch => ?_
    obtain ⟨hempty, hprefix⟩ := (truthy_afterPrefix _ _).mp hbranch
    exact hroom hempty hprefix

/-- So is a pull request, once its action is read. -/
theorem pullRequest_answered_iff (hkeeps : h.KeepsEntries) (payload : Json) {s : Scheduler}
    (hreg : Registered s.jobs s.queue) :
    Answered ((do
        let (branch, sha) ← Traced.ofExcept (parsePullRequest payload)
        acceptBranch h srv branch sha : Handler Unit).sent s) ↔ PullRequestRegular h srv payload s := by
  rw [answered_ofExcept_bind_iff]
  constructor
  · rintro ⟨⟨branch, sha⟩, hparse, hanswered⟩
    obtain ⟨entries, pr, head, hpayload, hpr, hhead, rfl, rfl⟩ := parsePullRequest_eq_ok.mp hparse
    exact ⟨entries, pr, head, hpayload, hpr, hhead,
      (acceptBranch_answered_iff srv hkeeps _ _ hreg).mp hanswered⟩
  · rintro ⟨entries, pr, head, hpayload, hpr, hhead, hroom⟩
    refine ⟨_, parsePullRequest_eq_ok.mpr ⟨entries, pr, head, hpayload, hpr, hhead, rfl, rfl⟩, ?_⟩
    exact (acceptBranch_answered_iff srv hkeeps _ _ hreg).mpr hroom

theorem handleEvent_answered_iff (hkeeps : h.KeepsEntries) (eventType : String) (payload : Json)
    {s : Scheduler} (hreg : Registered s.jobs s.queue) :
    Answered ((handleEvent h srv eventType payload).sent s) ↔
      EventRegular h srv eventType payload s := by
  by_cases hpush : eventType = "push"
  · subst hpush
    rw [push_answered_iff srv hkeeps payload hreg]
    exact ⟨fun hp => ⟨fun _ => hp, fun heq => absurd heq (by decide)⟩, fun hr => hr.push rfl⟩
  by_cases hpull : eventType = "pull_request"
  · subst hpull
    rw [handleEvent, if_neg hpush, if_pos rfl, answered_ofExcept_bind_iff]
    constructor
    · rintro ⟨action, haction, hanswered⟩
      obtain ⟨entries, rfl, rfl⟩ := Json.get_eq_ok.mp haction
      refine ⟨fun heq => absurd heq hpush, fun _ => ⟨entries, rfl, fun hhandled => ?_⟩⟩
      rw [if_pos hhandled] at hanswered
      exact (pullRequest_answered_iff srv hkeeps _ hreg).mp hanswered
    · intro hr
      obtain ⟨entries, rfl, hpr⟩ := hr.pullRequest rfl
      refine ⟨_, Json.get_eq_ok.mpr ⟨entries, rfl, rfl⟩, ?_⟩
      by_cases hhandled : ((entries.lookup "action").getD (.str "")).isHandledAction = true
      · rw [if_pos hhandled]
        exact (pullRequest_answered_iff srv hkeeps _ hreg).mpr (hpr hhandled)
      · rw [if_neg hhandled]
        exact answered_respondJson _ _ _ _ (by decide)
  · rw [handleEvent, if_neg hpush, if_neg hpull]
    exact iff_of_true (answered_respondJson _ _ _ _ (by decide))
      ⟨fun heq => absurd heq hpush, fun heq => absurd heq hpull⟩

/-- A body that does not decode is answered, and one whose decoder raises is
not. -/
theorem withPayload_answered_iff (body : List UInt8) (next : Json → Handler Unit) (s : Scheduler) :
    Answered ((withPayload h body next).sent s) ↔
      (∀ e, h.loads body ≠ .raised e) ∧
        ∀ payload, h.loads body = .value payload → Answered ((next payload).sent s) := by
  unfold withPayload
  cases h.loads body with
  | value payload => simp
  | decodeError => simp
  | raised e => simp

/-- A webhook with a valid signature. -/
theorem authentic_answered_iff (hkeeps : h.KeepsEntries) (eventType : String) (body : List UInt8)
    {s : Scheduler} (hreg : Registered s.jobs s.queue) :
    Answered ((if eventType = "ping" then respondJson 200 [("msg", .str "pong")]
        else withPayload h body (handleEvent h srv eventType)).sent s) ↔
      (eventType ≠ "ping" → ∀ e, h.loads body ≠ .raised e) ∧
        (eventType ≠ "ping" → ∀ payload, h.loads body = .value payload →
          EventRegular h srv eventType payload s) := by
  by_cases hping : eventType = "ping"
  · simp [hping]
  · simp only [hping, if_false, ne_eq, not_false_eq_true, forall_const]
    rw [withPayload_answered_iff]
    simp only [handleEvent_answered_iff srv hkeeps _ _ hreg]

theorem handleWebhook_answered_iff (hkeeps : h.KeepsEntries) (req : Request) (body : List UInt8)
    {s : Scheduler} (hreg : Registered s.jobs s.queue) :
    Answered ((handleWebhook h srv req body).sent s) ↔ WebhookRegular h srv req body s := by
  rw [handleWebhook, answered_ofExcept_bind_iff]
  constructor
  · rintro ⟨valid, hvalid, hanswered⟩
    have hsignature := (checkSignature_isOk_iff h srv req body).mp ⟨valid, hvalid⟩
    cases valid with
    | false =>
      have hfalse : checkSignature h srv req body ≠ .ok true := by simp [hvalid]
      exact ⟨hsignature, fun htrue => absurd htrue hfalse, fun htrue => absurd htrue hfalse⟩
    | true =>
      obtain ⟨hdecodes, hevent⟩ := (authentic_answered_iff srv hkeeps _ body hreg).mp hanswered
      exact ⟨hsignature, fun _ => hdecodes, fun _ => hevent⟩
  · intro hr
    obtain ⟨valid, hvalid⟩ := (checkSignature_isOk_iff h srv req body).mpr hr.signature
    refine ⟨valid, hvalid, ?_⟩
    cases valid with
    | false => simp
    | true =>
      exact (authentic_answered_iff srv hkeeps _ body hreg).mpr ⟨hr.decodes hvalid, hr.event hvalid⟩

/-- The commit is given, or that of the checkout is found. -/
theorem commit_isOk_iff (sha : Json) :
    (∃ commit, (if sha.truthy then .ok sha else (h.gitCommit.map Json.str).mapError HandlerExc.other)
        = Except.ok commit) ↔
      (sha.truthy = false → ∃ commit, h.gitCommit = .ok commit) := by
  cases hsha : sha.truthy with
  | true => simp
  | false => cases h.gitCommit <;> simp [Except.map, Except.mapError]

theorem runPayload_dict_answered_iff (hkeeps : h.KeepsEntries) (entries : List (String × Json))
    {s : Scheduler} (hreg : Registered s.jobs s.queue) :
    Answered ((runPayload h srv (.dict entries)).sent s) ↔
      (((entries.lookup "branch").getD (.str "")).truthy = true →
        (((entries.lookup "commit_sha").getD (.str "")).truthy = false →
          ∃ commit, h.gitCommit = .ok commit) ∧
        Submittable h srv ((entries.lookup "job").getD .null) s) := by
  unfold runPayload
  simp only [answered_ofExcept_bind_iff, Json.get_dict, Except.ok.injEq, exists_eq_left']
  cases hbranch : ((entries.lookup "branch").getD (.str "")).truthy with
  | false => simp
  | true =>
    simp only [Bool.not_true, Bool.false_eq_true, if_false, answered_ofExcept_bind_iff,
      acceptJobs_answered_iff srv hkeeps _ hreg, exists_and_right, commit_isOk_iff, forall_const]

theorem runPayload_answered_iff (hkeeps : h.KeepsEntries) (payload : Json) {s : Scheduler}
    (hreg : Registered s.jobs s.queue) :
    Answered ((runPayload h srv payload).sent s) ↔ PayloadRegular h srv payload s := by
  constructor
  · intro hanswered
    obtain ⟨_, hbranch, -⟩ := (answered_ofExcept_bind_iff _ _ _).mp hanswered
    obtain ⟨entries, rfl, -⟩ := Json.get_eq_ok.mp hbranch
    exact ⟨entries, rfl, (runPayload_dict_answered_iff srv hkeeps entries hreg).mp hanswered⟩
  · rintro ⟨entries, rfl, hr⟩
    exact (runPayload_dict_answered_iff srv hkeeps entries hreg).mpr hr

theorem handleApiRun_answered_iff (hkeeps : h.KeepsEntries) (req : Request) (body : List UInt8)
    {s : Scheduler} (hreg : Registered s.jobs s.queue) :
    Answered ((handleApiRun h srv req body).sent s) ↔ ApiRunRegular h srv req body s := by
  unfold handleApiRun
  by_cases htoken : apiTokenValid srv req = true
  · simp only [htoken, Bool.not_true, Bool.false_eq_true, if_false]
    rw [withPayload_answered_iff]
    simp only [runPayload_answered_iff srv hkeeps _ hreg]
    exact ⟨fun ⟨hdecodes, hpayload⟩ => ⟨fun _ => hdecodes, fun _ => hpayload⟩,
      fun hr => ⟨hr.decodes htoken, hr.payload htoken⟩⟩
  · refine iff_of_true ?_ ⟨fun htrue => absurd htrue htoken, fun htrue => absurd htrue htoken⟩
    simp [htoken]

/-! ## One request -/

theorem readBody_isOk_iff (stream : List UInt8) (n : Int) :
    (∃ body, readBody stream n = .ok body) ↔ -1 ≤ n := by
  unfold readBody
  split_ifs with hlow hall
  · simp [hlow]
  · simp [hall]
  · simp [Int.not_lt.mp hlow]

/-- A body that was read is answered as its path demands. -/
theorem path_answered_iff (x : PostCall) (body : List UInt8) :
    Answered ((if x.req.path = "/webhook" then handleWebhook x.host x.srv x.req body
        else if x.req.path = "/api/run" then handleApiRun x.host x.srv x.req body
        else respondJson 404 [("error", .str "not found")]).sent x.scheduler) ↔
      (x.req.path = "/webhook" → WebhookRegular x.host x.srv x.req body x.scheduler) ∧
      (x.req.path = "/api/run" → ApiRunRegular x.host x.srv x.req body x.scheduler) := by
  by_cases hwebhook : x.req.path = "/webhook"
  · simp [hwebhook, handleWebhook_answered_iff x.srv x.keepsEntries x.req body x.registered]
  by_cases hrun : x.req.path = "/api/run"
  · simp [hrun, handleApiRun_answered_iff x.srv x.keepsEntries x.req body x.registered]
  · simp [hwebhook, hrun]

/-- A POST request is answered exactly once, and not with an error next to
an acceptance, if and only if it is regular. -/
theorem PostCall.answered_iff (x : PostCall) : Answered x.responses ↔ x.Regular := by
  unfold PostCall.responses PostCall.Regular doPost
  rw [answered_ofExcept_bind_iff]
  refine exists_congr fun length => and_congr_right fun _ => ?_
  by_cases hlarge : length > maxContentLength
  · have hlow : -1 ≤ length := by
      unfold maxContentLength at hlarge
      omega
    simp [hlarge, hlow]
  · rw [if_neg hlarge, answered_ofExcept_bind_iff]
    constructor
    · rintro ⟨body, hbody, hanswered⟩
      refine ⟨(readBody_isOk_iff _ _).mp ⟨body, hbody⟩, fun _ body' hbody' => ?_⟩
      obtain rfl := Except.ok.inj (hbody.symm.trans hbody')
      exact (path_answered_iff x body).mp hanswered
    · rintro ⟨hlow, hr⟩
      obtain ⟨body, hbody⟩ := (readBody_isOk_iff x.req.stream length).mpr hlow
      refine ⟨body, hbody, (path_answered_iff x body).mpr ?_⟩
      exact hr (Int.not_lt.mp hlarge) body hbody

/-! ## An unknown job -/

namespace UnknownJob

/-- One platform, with one job. -/
def server : Server where
  platform := "nvidia"
  jobs := .ofList [("nvidia_gpu", { platform := some "nvidia" })]

/-- The text of a payload for the job `cpu`. -/
def body : List UInt8 :=
  "\x7b\"branch\": \"master\", \"commit_sha\": \"abc\", \"job\": \"cpu\"\x7d".toList.map
    fun c => c.toNat.toUInt8

def host : WebhookHost where
  hmacSha256 _ _ := List.replicate 32 0
  loads bytes :=
    if bytes = body then
      .value (.dict [("branch", .str "master"), ("commit_sha", .str "abc"), ("job", .str "cpu")])
    else .decodeError
  str
    | .str s => s
    | _ => "None"
  repr
    | .str s => "'" ++ s ++ "'"
    | _ => "None"
  gitCommit := .ok "abc"
  newId i := toString i
  before _ s := s
  between _ s := s
  detections _ _ := { gpus := .ok [], system := .ok { availableMemoryMb := .fin 0 } }

def req : Request where
  path := "/api/run"
  header name := if name = "Content-Length" then some "55" else none
  stream := body

/-- A request to an agent that has just started. -/
def call : PostCall where
  host := host
  srv := server
  req := req
  scheduler := {}
  registered := Scheduler.registered_of_reachable
    (Lts.Reachable.init (L := schedulerLts server.config) ⟨rfl, rfl, rfl⟩)
  keepsEntries := ⟨fun _ _ hs => hs, fun _ _ hs => hs⟩

end UnknownJob

/-- A job that is not known is answered with 400 and then as accepted. -/
theorem unknownJob_answered_twice :
    UnknownJob.call.responses.map Response.status = [400, 200] ∧
      UnknownJob.call.responses.map Response.accepted = [false, true] ∧
      ¬ Answered UnknownJob.call.responses := by
  have hstatus : UnknownJob.call.responses.map Response.status = [400, 200] := by decide +kernel
  refine ⟨hstatus, by decide +kernel, fun hanswered => ?_⟩
  have hlength := congrArg List.length hstatus
  rw [List.length_map, hanswered.one] at hlength
  cases hlength

end InfiniOps.Ci
