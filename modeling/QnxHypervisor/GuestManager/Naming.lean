import QnxHypervisor.GuestManager.Hostname

/-! # Runs of `refresh()` and the names they show

Every refresh visits the discovered guests in directory order. Beside the cache
the state keeps what the visits have asked, fetched and shown. Attempts keep ten
seconds apart as long as no unnamed guest is visited sooner, and a fetched name
stays as long as the cache had room for it.
-/

namespace QnxHypervisor.GuestManager.Hostname

open Foundation

/-- One call of `refresh_guest_name` by `refresh`. -/
structure NameVisit where
  guest : Guest
  now : Int
  /-- what `ssh_exec` would return -/
  answer : Option Bytes

structure NameAttempt where
  id : CStr 32
  time : Int
  deriving DecidableEq

/-- The name shown by a visit and the one that was known before it. -/
structure ShownName where
  known : Option (CStr 64)
  name : CStr 64

structure NameState where
  cache : NameCache
  clock : Int
  /-- the `ssh_exec` calls, in order -/
  attempts : List NameAttempt
  /-- the last visit that found the guest reachable and without a name -/
  unnamed : CStr 32 → Option Int
  /-- fetched, and the guest has been reachable since -/
  known : CStr 32 → Option (CStr 64)
  /-- the visits of reachable guests, in order -/
  shown : List ShownName

/-- The record that `discover_one`, `refresh_guest_state` and `apply_defaults`
hand over. -/
def namelessGuest (cfg : SshDefaults) (h : Host) (d : DirEntry) : Guest :=
  applyDefaults cfg
    (refreshGuestState d (d.stateText h) h.procs (discoverOne d (d.metaText h)))

/-- The calls of one refresh; `clock` and `answers` go with the position in the
array of guests. -/
def nameVisits (env : RefreshEnv) (h : Host) (clock : Nat → Int) (answers : Nat → Option Bytes) :
    List NameVisit :=
  ((env.entries.filter fun d => decide d.IsGuest).take maxGuests).mapIdx fun i d =>
    ⟨namelessGuest env.cfg h d, clock i, answers i⟩

/-- The visit finds a reachable guest that has no name yet. Before second 10 of
the epoch the zero time in the record counts as recent. -/
def Unnamed (cache : NameCache) (v : NameVisit) : Prop :=
  Reachable v.guest ∧ nameCacheGet cache v.guest.id = none ∧ 10 ≤ v.now

instance (cache : NameCache) (v : NameVisit) : Decidable (Unnamed cache v) :=
  inferInstanceAs (Decidable (_ ∧ _ ∧ _))

/-- The call, with the zero time stamp of `discover_one`. -/
def NameVisit.call (cache : NameCache) (v : NameVisit) : NameResult :=
  refreshGuestName cache 0 v.now v.answer v.guest

def NameResult.fetched (r : NameResult) : Option (CStr 64) :=
  if r.attempted = true ∧ r.guest.name.bytes ≠ [] then some r.guest.name else none

def nameVisit (s : NameState) (v : NameVisit) : NameState :=
  let id := v.guest.id
  let r := v.call s.cache
  { cache := r.cache
    clock := v.now
    attempts := if r.attempted then s.attempts ++ [⟨id, v.now⟩] else s.attempts
    unnamed := if Unnamed s.cache v then Function.update s.unnamed id (some v.now) else s.unnamed
    known := Function.update s.known id
      (if Reachable v.guest then (s.known id).or r.fetched else none)
    shown := if Reachable v.guest then s.shown ++ [⟨s.known id, r.guest.name⟩] else s.shown }

def runVisits : NameState → List NameVisit → Option NameState
  | s, [] => some s
  | s, v :: rest => if v.now < s.clock then none else runVisits (nameVisit s v) rest

structure NameRefresh where
  env : RefreshEnv
  host : Host
  clock : Nat → Int
  answers : Nat → Option Bytes

def NameRefresh.visits (e : NameRefresh) : List NameVisit :=
  nameVisits e.env e.host e.clock e.answers

def startNaming (clock : Int) : NameState := ⟨emptyCache, clock, [], fun _ => none, fun _ => none, []⟩

/-- HMS after its start, refreshing. -/
def nameMachine : Machine NameState NameRefresh where
  initial := fun s => ∃ clock, s = startNaming clock
  step := fun s e => runVisits s e.visits

/-! ## The promise and its condition -/

/-- Attempts for one guest are ten seconds apart. -/
def Throttled (s : NameState) : Prop :=
  s.attempts.Pairwise fun a b => a.id = b.id → a.time + 10 ≤ b.time

/-- What was known is what is shown. -/
def NamesKept (s : NameState) : Prop :=
  ∀ e ∈ s.shown, ∀ name, e.known = some name → e.name = name

/-- The answer is a name that fits the record. -/
def Names (answer : Option Bytes) : Prop :=
  ∃ text, answer = some text ∧ trimName (cString text) ≠ [] ∧ (trimName (cString text)).length < 64

instance (answer : Option Bytes) : Decidable (Names answer) :=
  match answer with
  | none => isFalse fun h => by obtain ⟨_, h, -⟩ := h; cases h
  | some text => decidable_of_iff
      (trimName (cString text) ≠ [] ∧ (trimName (cString text)).length < 64)
      ⟨fun h => ⟨text, rfl, h⟩, fun h => by obtain ⟨_, h, hn⟩ := h; cases h; exact hn⟩

/-- A reachable guest without a name is visited ten seconds after the last such
visit, and the cache has room for the name it answers with. -/
def VisitOk (s : NameState) (v : NameVisit) : Prop :=
  Unnamed s.cache v →
    (∀ t ∈ s.unnamed v.guest.id, t + 10 ≤ v.now) ∧ (Names v.answer → Room s.cache v.guest.id)

instance (s : NameState) (v : NameVisit) : Decidable (VisitOk s v) :=
  inferInstanceAs (Decidable (_ → _ ∧ _))

def VisitsOk : NameState → List NameVisit → Prop
  | _, [] => True
  | s, v :: rest => VisitOk s v ∧ VisitsOk (nameVisit s v) rest

def decidableVisitsOk : (s : NameState) → (vs : List NameVisit) → Decidable (VisitsOk s vs)
  | _, [] => isTrue trivial
  | s, v :: rest =>
      have := decidableVisitsOk (nameVisit s v) rest
      inferInstanceAs (Decidable (_ ∧ _))

instance (s : NameState) (vs : List NameVisit) : Decidable (VisitsOk s vs) := decidableVisitsOk s vs

/-- All visits of the refresh are fit. -/
def RefreshOk (s : NameState) (e : NameRefresh) : Prop := VisitsOk s e.visits

instance (s : NameState) (e : NameRefresh) : Decidable (RefreshOk s e) :=
  inferInstanceAs (Decidable (VisitsOk _ _))

/-! ## One call -/

variable {s : NameState} {v : NameVisit}

/-- A record as discovery hands it over. -/
def NameVisit.Fresh (v : NameVisit) : Prop := v.guest.id.bytes ≠ [] ∧ v.guest.name.bytes = []

theorem takeName_names {text : Bytes} {g : Guest} (hempty : g.name.bytes = [])
    (hname : (takeName text g).name.bytes ≠ []) : Names (some text) := by
  refine ⟨text, rfl, fun hnil => hname ?_, ?_⟩
  · have hfit : (CStr.fit 64 []).bytes = [] := rfl
    simp [takeName, hnil, hfit]
  · by_contra hlong
    simp [takeName, hlong, hempty] at hname

/-- The ways a call ends. -/
inductive Called (cache : NameCache) (v : NameVisit) : NameResult → Prop
  | hidden (hlive : ¬ Reachable v.guest) : Called cache v
      ⟨{ v.guest with name := .fit 64 [] }, 0,
        if (nameCacheGet cache v.guest.id).isSome then nameCachePut cache v.guest.id none
        else cache, false⟩
  | cached {n : CStr 64} (hlive : Reachable v.guest)
      (hcached : nameCacheGet cache v.guest.id = some n) :
      Called cache v ⟨{ v.guest with name := n }, 0, cache, false⟩
  | early (hlive : Reachable v.guest) (hcached : nameCacheGet cache v.guest.id = none)
      (hearly : v.now < 10) : Called cache v ⟨v.guest, 0, cache, false⟩
  | nameless {g : Guest} (hneeds : Unnamed cache v) (hname : g.name.bytes = []) :
      Called cache v ⟨g, v.now, cache, true⟩
  | named {g : Guest} (hneeds : Unnamed cache v) (hname : g.name.bytes ≠ [])
      (hanswer : Names v.answer) :
      Called cache v ⟨g, v.now, nameCachePut cache v.guest.id (some g.name), true⟩

theorem call_spec (hv : v.Fresh) : Called s.cache v (v.call s.cache) := by
  simp only [NameVisit.call, refreshGuestName]
  by_cases hlive : Reachable v.guest
  · simp only [hlive, not_true_eq_false, if_false]
    split
    · next n hcached => exact .cached hlive hcached
    · next hcached =>
      split
      · next hearly => exact .early hlive hcached (by omega)
      · next hlate =>
        have hneeds : Unnamed s.cache v := ⟨hlive, hcached, by omega⟩
        split
        · exact .nameless hneeds hv.2
        · next text htext =>
          split
          · next hname => exact .named hneeds hname (htext ▸ takeName_names hv.2 hname)
          · next hname => exact .nameless hneeds (not_not.mp hname)
  · simp only [hlive, not_false_eq_true, if_true]
    exact .hidden hlive

/-- `ssh_exec` is called for the reachable guests without a name. -/
theorem call_attempted (hv : v.Fresh) : (v.call s.cache).attempted = true ↔ Unnamed s.cache v := by
  have hcall : Called s.cache v (v.call s.cache) := call_spec hv
  generalize v.call s.cache = r at hcall ⊢
  cases hcall with
  | hidden hlive => simp [Unnamed, hlive]
  | cached hlive hcached => simp [Unnamed, hcached]
  | early hlive hcached hearly => simpa [Unnamed] using fun _ _ => hearly
  | nameless hneeds hname => simp [hneeds]
  | named hneeds hname hanswer => simp [hneeds]

theorem call_get_other (hv : v.Fresh) {id : CStr 32} (hne : v.guest.id ≠ id) :
    nameCacheGet (v.call s.cache).cache id = nameCacheGet s.cache id := by
  have hcall : Called s.cache v (v.call s.cache) := call_spec hv
  generalize v.call s.cache = r at hcall ⊢
  cases hcall with
  | hidden hlive =>
      simp only
      split
      · exact nameCacheGet_put_other hne
      · rfl
  | cached hlive hcached => rfl
  | early hlive hcached hearly => rfl
  | nameless hneeds hname => rfl
  | named hneeds hname hanswer => exact nameCacheGet_put_other hne

theorem call_cached {n : CStr 64} (hlive : Reachable v.guest)
    (hcached : nameCacheGet s.cache v.guest.id = some n) :
    (v.call s.cache).guest.name = n ∧ (v.call s.cache).cache = s.cache := by
  simp [NameVisit.call, refreshGuestName, hlive, hcached]

theorem call_fetched {n : CStr 64} (hv : v.Fresh) (hok : VisitOk s v)
    (hfetch : (v.call s.cache).fetched = some n) :
    nameCacheGet (v.call s.cache).cache v.guest.id = some n := by
  have hcall : Called s.cache v (v.call s.cache) := call_spec hv
  generalize v.call s.cache = r at hcall hfetch ⊢
  cases hcall with
  | hidden hlive => simp [NameResult.fetched] at hfetch
  | cached hlive hcached => simp [NameResult.fetched] at hfetch
  | early hlive hcached hearly => simp [NameResult.fetched] at hfetch
  | nameless hneeds hname => simp [NameResult.fetched, hname] at hfetch
  | @named g hneeds hname hanswer =>
      obtain rfl : g.name = n := by simpa [NameResult.fetched, hname] using hfetch
      exact nameCacheGet_put_self hv.1 hname ((hok hneeds).2 hanswer)

/-! ## One visit -/

/-- The times asked are not after the last visit of the unnamed guest, and a
known name is in the cache. -/
structure NameInv (s : NameState) : Prop where
  asked : ∀ a ∈ s.attempts, ∃ t, s.unnamed a.id = some t ∧ a.time ≤ t
  spaced : Throttled s
  cached : ∀ id n, s.known id = some n → nameCacheGet s.cache id = some n
  kept : NamesKept s

theorem NameInv.throttled_visit (hi : NameInv s) (hv : v.Fresh) (hok : VisitOk s v) :
    (∀ a ∈ (nameVisit s v).attempts,
      ∃ t, (nameVisit s v).unnamed a.id = some t ∧ a.time ≤ t) ∧ Throttled (nameVisit s v) := by
  by_cases hneeds : Unnamed s.cache v
  · have hspace := (hok hneeds).1
    have hattempts : (nameVisit s v).attempts = s.attempts ++ [⟨v.guest.id, v.now⟩] := by
      simp [nameVisit, (call_attempted hv).mpr hneeds]
    have hunnamed : (nameVisit s v).unnamed = Function.update s.unnamed v.guest.id (some v.now) := by
      simp [nameVisit, hneeds]
    refine ⟨fun a ha => ?_, ?_⟩
    · rw [hattempts, List.mem_append, List.mem_singleton] at ha
      rw [hunnamed]
      rcases ha with hold | rfl
      · obtain ⟨t, ht, hle⟩ := hi.asked a hold
        by_cases hid : a.id = v.guest.id
        · have hlast := hspace t (hid ▸ ht)
          exact ⟨v.now, by simp [hid], by omega⟩
        · exact ⟨t, by simpa [Function.update_of_ne hid] using ht, hle⟩
      · exact ⟨v.now, by simp, le_rfl⟩
    · unfold Throttled
      rw [hattempts, List.pairwise_append]
      refine ⟨hi.spaced, List.pairwise_singleton _ _, fun a ha b hb hid => ?_⟩
      obtain rfl := List.mem_singleton.mp hb
      obtain ⟨t, ht, hle⟩ := hi.asked a ha
      have hsame : a.id = v.guest.id := hid
      have hlast := hspace t (hsame ▸ ht)
      simp only
      omega
  · have hcall : (v.call s.cache).attempted = false := by
      simpa using mt (call_attempted hv).mp hneeds
    simp only [nameVisit, hcall, Bool.false_eq_true, if_false, hneeds, Throttled]
    exact ⟨hi.asked, hi.spaced⟩

theorem NameInv.known_visit (hi : NameInv s) (hv : v.Fresh) (hok : VisitOk s v) {id : CStr 32}
    {n : CStr 64} (hknown : (nameVisit s v).known id = some n) :
    nameCacheGet (nameVisit s v).cache id = some n := by
  have hcache : (nameVisit s v).cache = (v.call s.cache).cache := rfl
  rw [hcache]
  by_cases hid : v.guest.id = id
  · subst hid
    simp only [nameVisit, Function.update_self] at hknown
    split at hknown
    · next hlive =>
      rcases Option.or_eq_some_iff.mp hknown with hold | ⟨-, hfetch⟩
      · have hcached := hi.cached _ n hold
        rw [(call_cached hlive hcached).2]
        exact hcached
      · exact call_fetched hv hok hfetch
    · cases hknown
  · rw [call_get_other hv hid]
    simp only [nameVisit, Function.update_of_ne (Ne.symm hid)] at hknown
    exact hi.cached id n hknown

theorem nameInv_visit (hi : NameInv s) (hv : v.Fresh) (hok : VisitOk s v) :
    NameInv (nameVisit s v) := by
  obtain ⟨hasked, hspaced⟩ := hi.throttled_visit hv hok
  refine ⟨hasked, hspaced, fun id n hknown => hi.known_visit hv hok hknown, ?_⟩
  intro e he name hknown
  simp only [nameVisit] at he
  split at he
  · next hlive =>
    rcases List.mem_append.mp he with hold | hnew
    · exact hi.kept e hold name hknown
    · obtain rfl := List.mem_singleton.mp hnew
      exact (call_cached hlive (hi.cached _ name hknown)).1
  · exact hi.kept e he name hknown

/-! ## Runs -/

theorem isGuest_id {d : DirEntry} (h : d.IsGuest) : (CStr.fit 32 d.name).bytes ≠ [] := by
  obtain ⟨rest, hrest⟩ := List.isPrefixOf_iff_prefix.mp h.2.1
  have hcons : d.name = 103 :: (utf8 "uest-" ++ rest) := hrest.symm
  simp [hcons, CStr.fit, cString]

theorem namelessGuest_spec (cfg : SshDefaults) (h : Host) (d : DirEntry) :
    (namelessGuest cfg h d).id = .fit 32 d.name ∧ (namelessGuest cfg h d).name = .fit 64 [] := by
  simp only [namelessGuest, applyDefaults, refreshGuestState]
  split
  · exact ⟨rfl, rfl⟩
  · exact ⟨rfl, rfl⟩

/-- Discovery hands over records with an id and without a name. -/
theorem nameVisits_fresh {env : RefreshEnv} {h : Host} {clock : Nat → Int}
    {answers : Nat → Option Bytes} : ∀ v ∈ nameVisits env h clock answers, v.Fresh := by
  intro v hv
  obtain ⟨i, hi, rfl⟩ := List.mem_mapIdx.mp hv
  have hmem := List.mem_of_mem_take (List.getElem_mem hi)
  have hguest : DirEntry.IsGuest _ := of_decide_eq_true (List.mem_filter.mp hmem).2
  obtain ⟨hid, hname⟩ := namelessGuest_spec env.cfg h _
  refine ⟨?_, ?_⟩
  · rw [hid]
    exact isGuest_id hguest
  · rw [hname]
    rfl

theorem nameInv_run {vs : List NameVisit} {s' : NameState} (hi : NameInv s)
    (hv : ∀ v ∈ vs, v.Fresh) (hok : VisitsOk s vs) (hs : runVisits s vs = some s') :
    NameInv s' := by
  induction vs generalizing s with
  | nil =>
      obtain rfl := Option.some.inj hs
      exact hi
  | cons v rest ih =>
      simp only [runVisits] at hs
      split at hs
      · cases hs
      · exact ih (nameInv_visit hi (hv v List.mem_cons_self) hok.1)
          (fun w hw => hv w (List.mem_cons_of_mem v hw)) hok.2 hs

theorem nameInv_start (clock : Int) : NameInv (startNaming clock) := by
  refine ⟨?_, .nil, ?_, ?_⟩
  · simp [startNaming]
  · simp [startNaming]
  · simp [NamesKept, startNaming]

/-- While every unnamed guest is visited at most once in ten seconds and names
find room in the cache, the attempts keep their distance and names stay. -/
theorem hostnames_throttled (hr : nameMachine.ReachableBy RefreshOk s) :
    Throttled s ∧ NamesKept s := by
  have hi : NameInv s := by
    refine hr.invariant (fun s hs => ?_) fun s e s' _ hi hok hs => ?_
    · obtain ⟨clock, rfl⟩ := hs
      exact nameInv_start clock
    · exact nameInv_run hi nameVisits_fresh hok hs
  exact ⟨hi.spaced, hi.kept⟩

/-! ## The defect -/

/-- The guest runs and has an address. -/
def addressedHost : Host :=
  { bareHost with
    procs := fun p => if p = 5 then some ⟨utf8 "qvm", none⟩ else none
    metas := fun _ => some (utf8 "ip=10.0.0.5\npid=5\n") }

def refreshAt (now : Int) (answer : Option Bytes) : NameRefresh :=
  ⟨guestsOn [guestA], addressedHost, fun _ => now, fun _ => answer⟩

/-- A name is fetched and five seconds later still shown. -/
theorem fetched_name_shown :
    ∃ s, s.shown.getLast?.any (fun e => e.name == .fit 64 (utf8 "pi")) = true ∧
      Throttled s ∧ NamesKept s := by
  have hbegin : nameMachine.ReachableBy RefreshOk (startNaming 0) := .initial ⟨0, rfl⟩
  obtain ⟨s, hs, hshown⟩ := hbegin.after_any
    [refreshAt 100 (some (utf8 "pi\n")), refreshAt 105 none]
    (fun s => s.shown.getLast?.any fun e => e.name == .fit 64 (utf8 "pi")) (by decide)
  exact ⟨s, hshown, hostnames_throttled hs⟩

/-- The guest does not answer, and five seconds later it is asked again. -/
theorem unanswered_guest_asked_again :
    ¬ ∀ s, nameMachine.Reachable s → Throttled s ∧ NamesKept s := by
  intro hall
  have hbegin : nameMachine.Reachable (startNaming 0) := .initial ⟨0, rfl⟩
  obtain ⟨s, hs, hasked⟩ := hbegin.after_any [refreshAt 100 none, refreshAt 105 none]
    (fun s => s.attempts == [⟨.fit 32 guestA, 100⟩, ⟨.fit 32 guestA, 105⟩]) (by decide)
  have hspaced := (hall s hs).1
  rw [Throttled, eq_of_beq hasked] at hspaced
  have hten := (List.pairwise_cons.mp hspaced).1 _ List.mem_cons_self rfl
  exact absurd hten (by decide)

end QnxHypervisor.GuestManager.Hostname
