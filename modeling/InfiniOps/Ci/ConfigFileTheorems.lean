/-
InfiniOps.Ci.ConfigFileTheorems — when the flat configuration has everything
of the file.

`get?_flatJob` says what a flat job has under any key; from it, a job keeps
all but an image tag of its own (`carries_flatJob_iff`). Two jobs have one
name only if one platform's name goes on behind the other's
(`fullName_eq_iff`), and the entries are as many as the jobs exactly if
that does not happen (`nodup_names_iff`).
-/
import InfiniOps.Ci.ConfigFile

namespace InfiniOps.Ci

variable {V : Type}

/-! ## Copies -/

theorem get?_copyKeys (keys : List String) (src dst : OrderedDict String V) (key : String) :
    (copyKeys keys src dst).get? key
      = if key ∈ keys then (src.get? key).or (dst.get? key) else dst.get? key := by
  induction keys generalizing dst with
  | nil => rfl
  | cons k keys ih =>
    cases hsrc : src.get? k with
    | none =>
      have hcons : copyKeys (k :: keys) src dst = copyKeys keys src dst := by
        simp only [copyKeys, List.foldl_cons, hsrc]
      rw [hcons, ih]
      by_cases hk : key = k
      · simp [hk, hsrc]
      · simp [hk]
    | some v =>
      have hcons : copyKeys (k :: keys) src dst = copyKeys keys src (dst.insert k v) := by
        simp only [copyKeys, List.foldl_cons, hsrc]
      rw [hcons, ih]
      by_cases hk : key = k
      · simp [hk, hsrc]
      · simp [hk]

theorem get?_platformDefaults (pcfg : PlatformConfig V) (key : String) :
    (platformDefaults pcfg).get? key
      = if key ∈ ["image_tag", "docker_args", "volumes", "setup", "env"] then pcfg.fields.get? key
        else none := by
  rw [platformDefaults, get?_copyKeys]
  simp

/-! ## Names -/

/-- Two texts joined by a separator are the same if they are cut at the same
place or one of them goes on behind the cut of the other. -/
theorem append_cons_eq_iff {α : Type} (a b c d : List α) (sep : α) :
    a ++ sep :: b = c ++ sep :: d ↔
      a = c ∧ b = d ∨ (∃ x, c = a ++ sep :: x ∧ b = x ++ sep :: d) ∨
        ∃ x, a = c ++ sep :: x ∧ d = x ++ sep :: b := by
  constructor
  · intro h
    rcases List.append_eq_append_iff.mp h with ⟨e, hc, hb⟩ | ⟨e, ha, hd⟩
    · cases e with
      | nil =>
        rw [List.append_nil] at hc
        exact .inl ⟨hc.symm, (List.cons.inj hb).2⟩
      | cons y e =>
        obtain ⟨rfl, htail⟩ := List.cons.inj hb
        exact .inr (.inl ⟨e, hc, htail⟩)
    · cases e with
      | nil =>
        rw [List.append_nil] at ha
        exact .inl ⟨ha, (List.cons.inj hd).2.symm⟩
      | cons y e =>
        obtain ⟨rfl, htail⟩ := List.cons.inj hd
        exact .inr (.inr ⟨e, ha, htail⟩)
  · rintro (⟨rfl, rfl⟩ | ⟨x, rfl, rfl⟩ | ⟨x, rfl, rfl⟩) <;> simp

theorem fullName_eq_iff (p j p' j' : String) :
    fullName p j = fullName p' j' ↔
      p = p' ∧ j = j' ∨ (∃ x, p' = p ++ "_" ++ x ∧ j = x ++ "_" ++ j') ∨
        ∃ x, p = p' ++ "_" ++ x ∧ j' = x ++ "_" ++ j := by
  have hlist : ∀ a b : String, (a ++ "_" ++ b).toList = a.toList ++ '_' :: b.toList := by
    intro a b
    simp [String.toList_append]
  have hsplit : ∀ a b c : String, c = a ++ "_" ++ b ↔ c.toList = a.toList ++ '_' :: b.toList := by
    intro a b c
    rw [← hlist, String.toList_inj]
  have hex : ∀ a b c d : String, (∃ x, a = b ++ "_" ++ x ∧ c = x ++ "_" ++ d) ↔
      ∃ x, a.toList = b.toList ++ '_' :: x ∧ c.toList = x ++ '_' :: d.toList := by
    intro a b c d
    constructor
    · rintro ⟨x, ha, hc⟩
      exact ⟨x.toList, (hsplit b x a).mp ha, (hsplit x d c).mp hc⟩
    · rintro ⟨x, ha, hc⟩
      refine ⟨.ofList x, (hsplit _ _ _).mpr ?_, (hsplit _ _ _).mpr ?_⟩ <;>
        rwa [String.toList_ofList]
  rw [hex, hex, fullName, fullName, ← String.toList_inj, hlist, hlist, append_cons_eq_iff,
    String.toList_inj, String.toList_inj]

/-! ## The jobs of a file -/

section

variable {platforms : OrderedDict String (PlatformConfig V)}

/-- A job of the file is found by its two names. -/
theorem eq_of_names {x y : PlatformJob V} (hx : x ∈ platformJobs platforms)
    (hy : y ∈ platformJobs platforms) (hplatform : x.platform = y.platform)
    (hjob : x.jobName = y.jobName) : x = y := by
  have hentries : ∀ z ∈ platformJobs platforms,
      platforms.get? z.platform = some z.pcfg ∧ z.pcfg.jobs.get? z.jobName = some z.jobCfg := by
    intro z hz
    obtain ⟨⟨p, pcfg⟩, hp, hz⟩ := List.mem_flatMap.mp hz
    obtain ⟨⟨j, cfg⟩, hj, rfl⟩ := List.mem_map.mp hz
    exact ⟨(platforms.get?_eq_some_iff _ _).mpr hp, (pcfg.jobs.get?_eq_some_iff _ _).mpr hj⟩
  obtain ⟨p, pcfg, j, cfg⟩ := x
  obtain ⟨p', pcfg', j', cfg'⟩ := y
  obtain ⟨hpx, hjx⟩ := hentries _ hx
  obtain ⟨hpy, hjy⟩ := hentries _ hy
  simp only at hplatform hjob hpx hjx hpy hjy
  subst hplatform hjob
  rw [hpx] at hpy
  cases hpy
  rw [hjx] at hjy
  cases hjy
  rfl

theorem nodup_platformJobs (platforms : OrderedDict String (PlatformConfig V)) :
    (platformJobs platforms).Nodup := by
  refine List.nodup_flatMap.mpr ⟨?_, ?_⟩
  · rintro ⟨p, pcfg⟩ -
    refine (List.Nodup.of_map _ pcfg.jobs.nodup).map ?_
    rintro ⟨j, cfg⟩ ⟨j', cfg'⟩ h
    cases h
    rfl
  · refine (List.pairwise_map.mp platforms.nodup).imp ?_
    rintro ⟨p, pcfg⟩ ⟨p', pcfg'⟩ hne x hx hx'
    obtain ⟨_, -, rfl⟩ := List.mem_map.mp hx
    obtain ⟨_, -, heq⟩ := List.mem_map.mp hx'
    exact hne (congrArg PlatformJob.platform heq).symm

end

variable [ConfigValue V]

open ConfigValue (str)

/-! ## One job -/

/-- What a flat job has under a key. -/
theorem get?_flatJob (platform : String) (pcfg : PlatformConfig V)
    (jobCfg : OrderedDict String V) (key : String) :
    (flatJob platform (platformDefaults pcfg) jobCfg).get? key
      = (jobCfg.get? key).or (
        if key ∈ ["docker_args", "volumes", "setup", "env"] then pcfg.fields.get? key
        else if key = "image" then some ((pcfg.fields.get? "image_tag").getD (str "latest"))
        else if key = "platform" then some (str platform)
        else none) := by
  rw [flatJob, OrderedDict.get?_update, get?_copyKeys, get?_platformDefaults]
  congr 1
  by_cases hkey : key ∈ ["docker_args", "volumes", "setup", "env"]
  · have hdefault : key ∈ ["image_tag", "docker_args", "volumes", "setup", "env"] :=
      List.mem_cons_of_mem _ hkey
    have himage : key ≠ "image" := by
      rintro rfl
      revert hkey
      decide
    have hplatform : key ≠ "platform" := by
      rintro rfl
      revert hkey
      decide
    simp [hkey, hdefault, himage, hplatform]
  · simp [hkey, get?_platformDefaults]

/-- The flat entry carries everything but an image tag that it does not
happen to have. -/
theorem carries_flatJob_iff (x : PlatformJob V) :
    x.Carries (flatJob x.platform (platformDefaults x.pcfg) x.jobCfg) ↔
      ∀ tag, x.jobCfg.get? "image_tag" = some tag →
        (x.jobCfg.get? "image").getD ((x.pcfg.fields.get? "image_tag").getD (str "latest")) = tag := by
  have htag : imageTagOf (flatJob x.platform (platformDefaults x.pcfg) x.jobCfg)
      = (x.jobCfg.get? "image").getD ((x.pcfg.fields.get? "image_tag").getD (str "latest")) := by
    rw [imageTagOf, get?_flatJob]
    cases x.jobCfg.get? "image" <;> simp
  have hwanted : imageTagOf (flatJob x.platform (platformDefaults x.pcfg) x.jobCfg) = x.wantedTag ↔
      ∀ tag, x.jobCfg.get? "image_tag" = some tag →
        (x.jobCfg.get? "image").getD ((x.pcfg.fields.get? "image_tag").getD (str "latest")) = tag := by
    rw [htag, PlatformJob.wantedTag]
    cases hown : x.jobCfg.get? "image_tag" with
    | some tag => simp
    | none => cases himage : x.jobCfg.get? "image" <;> simp
  rw [← hwanted]
  constructor
  · exact fun h => h.imageTag
  · intro h
    refine ⟨?_, ?_, ?_, h⟩
    · intro key v hv
      rw [get?_flatJob, hv]
      rfl
    · intro hnone
      rw [get?_flatJob, hnone]
      rfl
    · intro key hkey hnone
      rw [get?_flatJob, hnone, if_pos hkey]
      rfl

/-! ## All jobs -/

variable {sections : OrderedDict String V}
  {platforms : OrderedDict String (PlatformConfig V)}

/-- The flat entries, in the order in which they are made. -/
def flatEntries (platforms : OrderedDict String (PlatformConfig V)) :
    List (String × OrderedDict String V) :=
  (platformJobs platforms).map fun x =>
    (fullName x.platform x.jobName, flatJob x.platform (platformDefaults x.pcfg) x.jobCfg)

theorem jobs_eq (sections : OrderedDict String V)
    (platforms : OrderedDict String (PlatformConfig V)) :
    (normalizePlatforms sections platforms).jobs = .ofList (flatEntries platforms) := by
  rw [normalizePlatforms, flatEntries, platformJobs, OrderedDict.ofList, OrderedDict.insertAll,
    List.map_flatMap, List.foldl_flatMap]
  simp only [List.map_map, List.foldl_map, flattenJobs, Function.comp]

/-- No two entries collapse exactly if the names are apart. -/
theorem nodup_names_iff :
    ((flatEntries platforms).map Prod.fst).Nodup ↔ NamesApart platforms := by
  have hnames : (flatEntries platforms).map Prod.fst
      = (platformJobs platforms).map fun x => fullName x.platform x.jobName := by
    rw [flatEntries, List.map_map]
    rfl
  rw [hnames]
  constructor
  · rintro h x hx y hy between ⟨hplatform, hjob⟩
    have heq := List.inj_on_of_nodup_map h hx hy
      ((fullName_eq_iff _ _ _ _).mpr (.inr (.inl ⟨between, hplatform, hjob⟩)))
    subst heq
    -- a name is not longer than itself
    have hlen := congrArg (fun s => s.toList.length) hplatform
    simp [String.toList_append] at hlen
  · intro h
    refine List.Nodup.map_on ?_ (nodup_platformJobs platforms)
    intro x hx y hy heq
    rcases (fullName_eq_iff _ _ _ _).mp heq with ⟨hp, hj⟩ | ⟨between, hp, hj⟩ | ⟨between, hp, hj⟩
    · exact eq_of_names hx hy hp hj
    · exact absurd ⟨hp, hj⟩ (h x hx y hy between)
    · exact absurd ⟨hp, hj⟩ (h y hy x hx between)

/-! ## Nothing is lost -/

theorem get?_sections (sections : OrderedDict String V)
    (platforms : OrderedDict String (PlatformConfig V)) (key : String) :
    (normalizePlatforms sections platforms).sections.get? key
      = if key ∈ ["repo", "github", "agents"] then sections.get? key else none := by
  rw [normalizePlatforms, get?_copyKeys]
  simp

theorem sections_iff :
    (∀ key ∈ ["repo", "github", "agents", "registry"],
      (normalizePlatforms sections platforms).sections.get? key = sections.get? key) ↔
      sections.get? "registry" = none := by
  simp only [get?_sections]
  constructor
  · intro h
    exact (h "registry" (by decide)).symm
  · intro h key hkey
    by_cases hcopied : key ∈ ["repo", "github", "agents"]
    · rw [if_pos hcopied]
    · have hregistry : key = "registry" := by
        simp only [List.mem_cons, List.not_mem_nil, or_false] at hkey hcopied
        tauto
      rw [if_neg hcopied, hregistry, h]

/-- Where no two entries collapse, each is found under its name. -/
theorem get?_jobs (h : NamesApart platforms) {x : PlatformJob V} (hx : x ∈ platformJobs platforms) :
    (normalizePlatforms sections platforms).jobs.get? (fullName x.platform x.jobName)
      = some (flatJob x.platform (platformDefaults x.pcfg) x.jobCfg) := by
  rw [jobs_eq]
  exact OrderedDict.get?_ofList (nodup_names_iff.mpr h)
    (List.mem_map_of_mem (f := fun x : PlatformJob V => (fullName x.platform x.jobName,
      flatJob x.platform (platformDefaults x.pcfg) x.jobCfg)) hx)

theorem lossless_iff_keeps (sections : OrderedDict String V)
    (platforms : OrderedDict String (PlatformConfig V)) :
    Lossless sections platforms (normalizePlatforms sections platforms) ↔
      Keeps sections platforms := by
  have hentries : (normalizePlatforms sections platforms).jobs.entries.length
      = (platformJobs platforms).length ↔ NamesApart platforms := by
    rw [jobs_eq, ← nodup_names_iff, ← OrderedDict.length_ofList_iff]
    simp [flatEntries]
  constructor
  · intro h
    have hapart := hentries.mp h.entries
    refine ⟨hapart, ?_, sections_iff.mp h.sections⟩
    intro x hx
    obtain ⟨flat, hflat, hcarries⟩ := h.jobs x hx
    rw [get?_jobs hapart hx] at hflat
    cases hflat
    exact (carries_flatJob_iff x).mp hcarries
  · intro h
    refine ⟨hentries.mpr h.namesApart, ?_, sections_iff.mpr h.noRegistry⟩
    intro x hx
    exact ⟨_, get?_jobs h.namesApart hx, (carries_flatJob_iff x).mpr (h.tagsAgree x hx)⟩

/-- Files whose values are texts. -/
instance : ConfigValue String := ⟨id⟩

/-- A platform with one job. -/
def onePlatform (fields : OrderedDict String String) (jobName : String)
    (jobCfg : OrderedDict String String) : PlatformConfig String :=
  ⟨fields, OrderedDict.empty.insert jobName jobCfg⟩

/-- `a_b` has a job `c`, and `a` a job `b_c`. -/
def collidingNames : OrderedDict String (PlatformConfig String) :=
  (OrderedDict.empty.insert "a_b" (onePlatform .empty "c" .empty)).insert "a"
    (onePlatform .empty "b_c" .empty)

/-- A job with an image tag of its own. -/
def ownTag : OrderedDict String (PlatformConfig String) :=
  OrderedDict.empty.insert "nvidia"
    (onePlatform .empty "gpu" (OrderedDict.empty.insert "image_tag" "stable"))

/-- A section on a registry. -/
def registrySection : OrderedDict String String :=
  OrderedDict.empty.insert "registry" "localhost:5000"

end InfiniOps.Ci
