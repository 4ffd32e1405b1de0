import QnxHypervisor.GuestManager.OneProcess

/-! # Names of the guests

`refresh_guest_name` and the cache behind it. The record is built anew by every
refresh, so the time of the last attempt in it is always zero; the names are
kept in a table of their own, one entry for each id.
-/

namespace QnxHypervisor.GuestManager.Hostname

open Foundation

/-! ## The first entry that matches -/

section UpdateFirst

variable {α : Type*} {p q : α → Bool} {f : α → α} {l : List α}

/-- The change of the first element with `p`. -/
def updateFirst (p : α → Bool) (f : α → α) : List α → List α
  | [] => []
  | a :: rest => if p a then f a :: rest else a :: updateFirst p f rest

theorem find?_updateFirst_other (hold : ∀ a, p a = true → q a = false)
    (hnew : ∀ a, p a = true → q (f a) = false) :
    (updateFirst p f l).find? q = l.find? q := by
  induction l with
  | nil => rfl
  | cons a rest ih =>
      by_cases ha : p a = true
      · simp [updateFirst, ha, hold a ha, hnew a ha]
      · simp only [updateFirst, ha, Bool.false_eq_true, if_false, List.find?_cons, ih]

theorem find?_updateFirst_self (hall : ∀ a ∈ l, q a = true → p a = true)
    (hnew : ∀ a, p a = true → q (f a) = true) :
    (updateFirst p f l).find? q = (l.find? p).map f := by
  induction l with
  | nil => rfl
  | cons a rest ih =>
      have hrest := ih fun b hb => hall b (List.mem_cons_of_mem a hb)
      by_cases ha : p a = true
      · simp [updateFirst, ha, hnew a ha]
      · have hq : q a = false := by
          simpa using fun h => ha (hall a List.mem_cons_self h)
        simp [updateFirst, ha, hq, hrest]

end UpdateFirst

/-! ## The cache -/

structure NameEntry where
  id : CStr 32
  name : CStr 64
  deriving DecidableEq

/-- `name_cache`. -/
abbrev NameCache := List NameEntry

def NameEntry.free (e : NameEntry) : Bool := e.id.bytes == []

/-- A used entry of this id. -/
def NameEntry.isFor (id : CStr 32) (e : NameEntry) : Bool := !e.free && e.id == id

/-- The static table: all bytes zero. -/
def emptyCache : NameCache := List.replicate maxGuests ⟨.fit 32 [], .fit 64 []⟩

/-- `name_cache_get`. -/
def nameCacheGet (cache : NameCache) (id : CStr 32) : Option (CStr 64) :=
  (cache.find? (NameEntry.isFor id)).bind fun e => if e.name.bytes = [] then none else some e.name

/-- An entry of the id takes the name, or is evicted without one. -/
def NameEntry.store (name : Option (CStr 64)) (e : NameEntry) : NameEntry :=
  match name with
  | some name => { e with name := name }
  | none => { e with id := .fit 32 [] }

/-- `name_cache_put`: an entry of that id, else the first free one, else none. -/
def nameCachePut (cache : NameCache) (id : CStr 32) (name : Option (CStr 64)) : NameCache :=
  if cache.any (NameEntry.isFor id) then
    updateFirst (NameEntry.isFor id) (NameEntry.store name) cache
  else updateFirst NameEntry.free (fun e => ⟨id, name.getD e.name⟩) cache

/-- A name of this id can be kept. -/
def Room (cache : NameCache) (id : CStr 32) : Prop :=
  cache.any (fun e => e.free || e.isFor id) = true

instance (cache : NameCache) (id : CStr 32) : Decidable (Room cache id) :=
  inferInstanceAs (Decidable (_ = true))

variable {cache : NameCache} {id id' : CStr 32} {n : CStr 64} {name : Option (CStr 64)}

theorem isFor_id {e : NameEntry} (h : e.isFor id = true) : e.id = id := by
  simp only [NameEntry.isFor, Bool.and_eq_true, beq_iff_eq] at h
  exact h.2

theorem isFor_of_free {e : NameEntry} (h : e.free = true) : e.isFor id = false := by
  simp [NameEntry.isFor, h]

theorem nameCacheGet_put_other (hne : id' ≠ id) :
    nameCacheGet (nameCachePut cache id' name) id = nameCacheGet cache id := by
  have hother : ∀ e : NameEntry, e.isFor id' = true → e.isFor id = false := by
    intro e he
    simp [NameEntry.isFor, isFor_id he, hne]
  unfold nameCacheGet nameCachePut
  split
  · rw [find?_updateFirst_other hother]
    intro e he
    cases name with
    | none => simp [NameEntry.store, NameEntry.isFor, NameEntry.free, CStr.fit, cString]
    | some n => exact hother e he
  · rw [find?_updateFirst_other fun e he => isFor_of_free he]
    intro e _
    simp [NameEntry.isFor, hne]

theorem nameCacheGet_put_self (hid : id.bytes ≠ []) (hn : n.bytes ≠ []) (hroom : Room cache id) :
    nameCacheGet (nameCachePut cache id (some n)) id = some n := by
  unfold nameCacheGet nameCachePut
  split
  · next hused =>
    have hkeep : ∀ e : NameEntry, e.isFor id = true → (e.store (some n)).isFor id = true :=
      fun _ he => he
    rw [find?_updateFirst_self (fun _ _ he => he) hkeep]
    obtain ⟨e, he⟩ := Option.isSome_iff_exists.mp (List.find?_isSome.mpr (List.any_eq_true.mp hused))
    simp [he, NameEntry.store, hn]
  · next hunused =>
    have hnone : ∀ e ∈ cache, e.isFor id = false := by
      simpa using hunused
    have hfree : ∃ e ∈ cache, e.free = true := by
      obtain ⟨e, he, hor⟩ := List.any_eq_true.mp hroom
      rw [hnone e he, Bool.or_false] at hor
      exact ⟨e, he, hor⟩
    have hnew : ∀ e : NameEntry, e.free = true →
        NameEntry.isFor id ⟨id, (some n).getD e.name⟩ = true := by
      intro e _
      simp [NameEntry.isFor, NameEntry.free, hid]
    rw [find?_updateFirst_self (fun e he hfor => by rw [hnone e he] at hfor; cases hfor) hnew]
    obtain ⟨e, he⟩ := Option.isSome_iff_exists.mp (List.find?_isSome.mpr hfree)
    simp [he, hn]

/-! ## The lookup -/

/-- What the trimming loop takes off the end. -/
def isTrailing (b : UInt8) : Bool := b == 10 || b == 13 || b == 32 || b == 9

def trimName (t : Bytes) : Bytes := (t.reverse.dropWhile isTrailing).reverse

structure NameResult where
  guest : Guest
  nameTs : Int
  cache : NameCache
  /-- `ssh_exec` has been called -/
  attempted : Bool

/-- The record is RUNNING and has an address. -/
def Reachable (g : Guest) : Prop := g.state = .running ∧ g.ip.bytes ≠ []

instance (g : Guest) : Decidable (Reachable g) := inferInstanceAs (Decidable (_ ∧ _))

/-- The answer of `hostname` copied into the record. -/
def takeName (answer : Bytes) (g : Guest) : Guest :=
  let out := trimName (cString answer)
  { g with name := if out.length < 64 then .fit 64 out else g.name }

/-- `refresh_guest_name`. -/
def refreshGuestName (cache : NameCache) (nameTs now : Int) (answer : Option Bytes) (g : Guest) :
    NameResult :=
  let cached := nameCacheGet cache g.id
  if ¬ Reachable g then
    ⟨{ g with name := .fit 64 [] }, 0,
      if cached.isSome then nameCachePut cache g.id none else cache, false⟩
  else
    match cached with
    | some name => ⟨{ g with name := name }, nameTs, cache, false⟩
    | none =>
        if now - nameTs < 10 then ⟨g, nameTs, cache, false⟩
        else
          match answer with
          | none => ⟨g, now, cache, true⟩
          | some answer =>
              let g := takeName answer g
              if g.name.bytes ≠ [] then ⟨g, now, nameCachePut cache g.id (some g.name), true⟩
              else ⟨g, now, cache, true⟩

end QnxHypervisor.GuestManager.Hostname
