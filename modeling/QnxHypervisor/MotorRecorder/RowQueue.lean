import QnxHypervisor.MotorRecorder.Rows

/-! # The row queue between its two threads

`queue_push` and `queue_pop`, split into the loads of the indexes, the copies of
single fields of a row and the stores. One thread pushes and one pops, and they take
turns after every access. `MotorRecorder.Rows` makes each call in fewer steps.
-/

namespace QnxHypervisor.MotorRecorder

open Foundation MotorWire

/-! ## Source functions -/

/-- `(i + 1) & q->mask` after `queue_alloc(k)`. The shift in `queue_alloc` needs
`k < 32`, so the sum does not wrap. -/
def nextIndex (k i : Nat) : Nat := (i + 1) &&& (2 ^ k - 1)

theorem nextIndex_eq (k i : Nat) : nextIndex k i = (i + 1) % 2 ^ k :=
  Nat.and_two_pow_sub_one_eq_mod (i + 1) k

/-- The assignment of one of the eight currents. -/
def copyCurrent (i : Fin 8) (src dst : CsvRow) : CsvRow :=
  { dst with row := { dst.row with current := dst.row.current.set i src.row.current[i] } }

/-- A structure assignment of `csv_row_t`, field by field. -/
def csvRowParts : List (CsvRow → CsvRow → CsvRow) :=
  (fun src dst => { dst with ts := src.ts }) :: ((List.finRange 8).map copyCurrent ++
    [fun src dst => { dst with row := { dst.row with vibX := src.row.vibX } },
      fun src dst => { dst with row := { dst.row with vibY := src.row.vibY } },
      fun src dst => { dst with row := { dst.row with vibZ := src.row.vibZ } },
      fun src dst => { dst with row := { dst.row with rpm := src.row.rpm } }])

theorem foldl_set_getElem {n : Nat} (w v : Vector UInt16 n) (is : List (Fin n)) (j : Fin n) :
    (is.foldl (fun v i => v.set i w[i]) v)[j] = if j ∈ is then w[j] else v[j] := by
  induction is generalizing v with
  | nil => simp
  | cons i is ih =>
      rw [List.foldl_cons, ih]
      by_cases hj : j ∈ is
      · simp [hj]
      · by_cases hi : i = j
        · subst hi
          simp [hj]
        · have hne : i.val ≠ j.val := fun h => hi (Fin.ext h)
          simp [hj, Ne.symm hi, hne]

theorem foldl_set_finRange {n : Nat} (w v : Vector UInt16 n) :
    (List.finRange n).foldl (fun v i => v.set i w[i]) v = w := by
  refine Vector.ext fun j hj => ?_
  have hentry := foldl_set_getElem w v (List.finRange n) ⟨j, hj⟩
  simpa using hentry

theorem foldl_copyCurrent (src dst : CsvRow) (is : List (Fin 8)) :
    (is.map copyCurrent).foldl (fun dst part => part src dst) dst =
      { dst with
        row := { dst.row with
          current := is.foldl (fun v (i : Fin 8) => v.set i src.row.current[i]) dst.row.current } } := by
  induction is generalizing dst with
  | nil => rfl
  | cons i is ih => exact ih (copyCurrent i src dst)

def csvRowPlan : CopyPlan CsvRow where
  parts := csvRowParts
  whole := by
    intro src dst
    rw [csvRowParts, List.foldl_cons, List.foldl_append, foldl_copyCurrent, foldl_set_finRange]
    rfl

/-! ## The two threads -/

/-- The pusher before its next access. The store to `head` comes when no field is left. -/
inductive Pusher where
  | idle
  | loadHead (r : CsvRow)
  | loadTail (r : CsvRow) (h : Nat)
  | copying (r : CsvRow) (h : Nat) (parts : List (CsvRow → CsvRow → CsvRow))

/-- The popper before its next access; `unread` is history. -/
inductive Popper where
  | idle
  | loadHead (out : CsvRow)
  | loadTail (out : CsvRow) (h unread : Nat)
  | copying (out : CsvRow) (t : Nat) (parts : List (CsvRow → CsvRow → CsvRow))

/-- What a push has returned, with the rows that were unread when it read the tail. -/
inductive PushResult where
  | accepted (r : CsvRow)
  | refused (r : CsvRow) (unread : Nat)

def PushResult.row : PushResult → Option CsvRow
  | .accepted r => some r
  | .refused _ _ => none

/-- What a pop has returned, with the rows that were unread when it read the head. -/
inductive PopResult where
  | popped (r : CsvRow)
  | empty (unread : Nat)

def PopResult.row : PopResult → Option CsvRow
  | .popped r => some r
  | .empty _ => none

structure QueueRun where
  queue : RowQueue
  pusher : Pusher
  popper : Popper
  pushes : List PushResult
  pops : List PopResult

inductive QueueEvent where
  | callPush (r : CsvRow)
  | push
  | callPop (out : CsvRow)
  | pop

namespace QueueRun

/-- The rows whose push has returned true. -/
def accepted (s : QueueRun) : List CsvRow := s.pushes.filterMap PushResult.row

def popped (s : QueueRun) : List CsvRow := s.pops.filterMap PopResult.row

def unread (s : QueueRun) : Nat := s.accepted.length - s.popped.length

/-- The next access of `queue_push`; it returns with its last. -/
def push (k : Nat) (s : QueueRun) : Option QueueRun :=
  match s.pusher with
  | .idle => none
  | .loadHead r => some { s with pusher := .loadTail r s.queue.head }
  | .loadTail r h =>
      let t := s.queue.tail
      if nextIndex k h = t then
        some { s with pusher := .idle, pushes := s.pushes ++ [.refused r s.unread] }
      else some { s with pusher := .copying r h csvRowPlan.parts }
  | .copying r h (part :: parts) =>
      some { s with
        queue := { s.queue with
          cells := Function.update s.queue.cells h (part r (s.queue.cells h)) }
        pusher := .copying r h parts }
  | .copying r h [] =>
      some { s with
        queue := { s.queue with head := nextIndex k h }
        pusher := .idle
        pushes := s.pushes ++ [.accepted r] }

/-- The next access of `queue_pop`. -/
def pop (k : Nat) (s : QueueRun) : Option QueueRun :=
  match s.popper with
  | .idle => none
  | .loadHead out => some { s with popper := .loadTail out s.queue.head s.unread }
  | .loadTail out h unread =>
      let t := s.queue.tail
      if h = t then some { s with popper := .idle, pops := s.pops ++ [.empty unread] }
      else some { s with popper := .copying out t csvRowPlan.parts }
  | .copying out t (part :: parts) =>
      some { s with popper := .copying (part (s.queue.cells t) out) t parts }
  | .copying out t [] =>
      some { s with
        queue := { s.queue with tail := nextIndex k t }
        popper := .idle
        pops := s.pops ++ [.popped out] }

/-- `queue_alloc`. -/
def begin : QueueRun where
  queue := queueAlloc
  pusher := .idle
  popper := .idle
  pushes := []
  pops := []

/-- The slots that are being copied, and the stored indexes. -/
def indexes (s : QueueRun) : List Nat :=
  (match s.pusher with
    | .copying _ h _ => [h]
    | _ => []) ++
  (match s.popper with
    | .copying _ t _ => [t]
    | _ => []) ++ [s.queue.head, s.queue.tail]

end QueueRun

def queueStep (k : Nat) (s : QueueRun) : QueueEvent → Option QueueRun
  | .callPush r =>
      match s.pusher with
      | .idle => some { s with pusher := .loadHead r }
      | _ => none
  | .push => s.push k
  | .callPop out =>
      match s.popper with
      | .idle => some { s with popper := .loadHead out }
      | _ => none
  | .pop => s.pop k

def queueMachine (k : Nat) : Machine QueueRun QueueEvent where
  initial s := s = .begin
  step := queueStep k

/-! ## What is promised -/

/-- A queue of `2 ^ k - 1` rows: what comes out went in, in order and whole; a push is
refused by a full queue only and a pop by an empty one. -/
structure BoundedFifo (k : Nat) (s : QueueRun) : Prop where
  inOrder : s.popped <+: s.accepted
  full : ∀ r unread, .refused r unread ∈ s.pushes → unread = 2 ^ k - 1
  empty : ∀ unread, .empty unread ∈ s.pops → unread = 0
  inside : ∀ i ∈ s.indexes, i < 2 ^ k

/-! ## The invariant -/

variable {k n : Nat} {q : RowQueue} {log : List CsvRow} {s s' : QueueRun}

/-- A pusher that copies has found room, and what it has not copied yet completes the
row in its slot. -/
def PusherInv (k : Nat) (q : RowQueue) (log : List CsvRow) (taken : Nat) : Pusher → Prop
  | .idle | .loadHead _ => True
  | .loadTail _ h => h = q.head
  | .copying r h parts =>
      h = q.head ∧ log.length + 1 < taken + 2 ^ k ∧ copyRest r parts (q.cells h) = r

/-- A popper has seen some number of accepted rows, and copies only what was there. -/
def PopperInv (k : Nat) (q : RowQueue) (log : List CsvRow) (taken : Nat) : Popper → Prop
  | .idle | .loadHead _ => True
  | .loadTail _ h unread =>
      ∃ seen, h = seen % 2 ^ k ∧ unread = seen - taken ∧ taken ≤ seen ∧ seen ≤ log.length
  | .copying out t parts =>
      t = q.tail ∧ taken < log.length ∧ copyRest (q.cells t) parts out = q.cells t

structure QueueInv (k : Nat) (s : QueueRun) : Prop where
  holds : s.queue.Holds (2 ^ k) s.accepted s.popped.length
  inOrder : s.popped = s.accepted.take s.popped.length
  pusher : PusherInv k s.queue s.accepted s.popped.length s.pusher
  popper : PopperInv k s.queue s.accepted s.popped.length s.popper
  full : ∀ r unread, .refused r unread ∈ s.pushes → unread = 2 ^ k - 1
  empty : ∀ unread, .empty unread ∈ s.pops → unread = 0

theorem queueInv_begin : QueueInv k .begin where
  holds := .new _ (Nat.two_pow_pos k)
  inOrder := rfl
  pusher := trivial
  popper := trivial
  full := fun _ _ h => by cases h
  empty := fun _ h => by cases h

/-! ## Pushing -/

theorem PopperInv.publish {p : Popper} {h : Nat} {r : CsvRow} (hp : PopperInv k q log n p) :
    PopperInv k { q with head := h } (log ++ [r]) n p := by
  have hlen : (log ++ [r]).length = log.length + 1 := List.length_append
  cases p with
  | idle => trivial
  | loadHead out => trivial
  | loadTail out h unread =>
      obtain ⟨seen, hh, hunread, hle, hseen⟩ := hp
      exact ⟨seen, hh, hunread, hle, by omega⟩
  | copying out t parts =>
      obtain ⟨ht, hlt, hrest⟩ := hp
      exact ⟨ht, by omega, hrest⟩

theorem PopperInv.store {p : Popper} {x : CsvRow} (hp : PopperInv k q log n p)
    (hholds : q.Holds (2 ^ k) log n) : PopperInv k (q.store x) log n p := by
  cases p with
  | idle => trivial
  | loadHead out => trivial
  | loadTail out h unread => exact hp
  | copying out t parts =>
      obtain ⟨rfl, hlt, hrest⟩ := hp
      have hsame : (q.store x).cells q.tail = q.cells q.tail :=
        ((hholds.store x).read hlt).trans (hholds.read hlt).symm
      refine ⟨rfl, hlt, ?_⟩
      rw [hsame]
      exact hrest

theorem accepted_append_accepted (pushes : List PushResult) (r : CsvRow) :
    (pushes ++ [PushResult.accepted r]).filterMap PushResult.row = pushes.filterMap PushResult.row ++ [r] := by
  rw [List.filterMap_append]
  rfl

theorem accepted_append_refused (pushes : List PushResult) (r : CsvRow) (unread : Nat) :
    (pushes ++ [PushResult.refused r unread]).filterMap PushResult.row =
      pushes.filterMap PushResult.row := by
  rw [List.filterMap_append]
  exact List.append_nil _

theorem QueueInv.refuse {r : CsvRow} (h : QueueInv k s)
    (hfull : nextIndex k s.queue.head = s.queue.tail) :
    QueueInv k { s with pusher := .idle, pushes := s.pushes ++ [.refused r s.unread] } := by
  rw [nextIndex_eq, h.holds.full_iff] at hfull
  have hsame := accepted_append_refused s.pushes r s.unread
  refine ⟨?_, ?_, trivial, ?_, ?_, h.empty⟩
  · show s.queue.Holds _ (List.filterMap _ _) _
    rw [hsame]
    exact h.holds
  · show s.popped = (List.filterMap _ _).take _
    rw [hsame]
    exact h.inOrder
  · show PopperInv k s.queue (List.filterMap _ _) _ _
    rw [hsame]
    exact h.popper
  · intro r' unread hmem
    rcases List.mem_append.mp hmem with hold | hnew
    · exact h.full r' unread hold
    · obtain ⟨rfl, rfl⟩ := PushResult.refused.inj (List.mem_singleton.mp hnew)
      unfold QueueRun.unread
      omega

theorem QueueInv.accept {r : CsvRow} (h : QueueInv k s)
    (hroom : s.accepted.length + 1 < s.popped.length + 2 ^ k)
    (hcell : s.queue.cells s.queue.head = r) :
    QueueInv k { s with
      queue := { s.queue with head := nextIndex k s.queue.head }
      pusher := .idle
      pushes := s.pushes ++ [.accepted r] } := by
  have hnew := accepted_append_accepted s.pushes r
  have hpublished := h.holds.publish hroom hcell
  rw [← nextIndex_eq] at hpublished
  refine ⟨?_, ?_, trivial, ?_, ?_, h.empty⟩
  · show RingBuffer.Holds _ _ (List.filterMap _ _) _
    rw [hnew]
    exact hpublished
  · show s.popped = (List.filterMap _ _).take s.popped.length
    rw [hnew]
    exact h.inOrder.trans (List.take_append_of_le_length h.holds.taken_le).symm
  · show PopperInv k _ (List.filterMap _ _) _ _
    rw [hnew]
    exact h.popper.publish
  · intro r' unread hmem
    rcases List.mem_append.mp hmem with hold | hmem
    · exact h.full r' unread hold
    · cases List.mem_singleton.mp hmem

theorem QueueInv.push (h : QueueInv k s) (hs : s.push k = some s') : QueueInv k s' := by
  have hpusher := h.pusher
  unfold QueueRun.push at hs
  cases hphase : s.pusher with
  | idle =>
      rw [hphase] at hs
      cases hs
  | loadHead r =>
      rw [hphase] at hs
      obtain rfl := Option.some.inj hs
      exact ⟨h.holds, h.inOrder, rfl, h.popper, h.full, h.empty⟩
  | loadTail r head =>
      rw [hphase] at hs hpusher
      obtain rfl : head = s.queue.head := hpusher
      dsimp only at hs
      split at hs
      · next hfull =>
        obtain rfl := Option.some.inj hs
        exact h.refuse hfull
      · next hfree =>
        obtain rfl := Option.some.inj hs
        rw [nextIndex_eq, h.holds.full_iff] at hfree
        have hlt := h.holds.lt
        have hroom : s.accepted.length + 1 < s.popped.length + 2 ^ k := by omega
        exact ⟨h.holds, h.inOrder, ⟨rfl, hroom, csvRowPlan.copyRest r _⟩, h.popper, h.full, h.empty⟩
  | copying r head parts =>
      rw [hphase] at hs hpusher
      obtain ⟨rfl, hroom, hrest⟩ := hpusher
      cases parts with
      | cons part parts =>
          obtain rfl := Option.some.inj hs
          refine ⟨h.holds.store _, h.inOrder, ⟨rfl, hroom, ?_⟩, h.popper.store h.holds, h.full,
            h.empty⟩
          show copyRest r parts (Function.update s.queue.cells s.queue.head _ s.queue.head) = r
          rw [Function.update_self]
          exact hrest
      | nil =>
          obtain rfl := Option.some.inj hs
          exact h.accept hroom hrest

/-! ## Popping -/

theorem PusherInv.release {p : Pusher} {t : Nat} (hp : PusherInv k q log n p) :
    PusherInv k { q with tail := t } log (n + 1) p := by
  cases p with
  | idle => trivial
  | loadHead r => trivial
  | loadTail r h => exact hp
  | copying r h parts =>
      obtain ⟨hh, hroom, hrest⟩ := hp
      exact ⟨hh, by omega, hrest⟩

theorem popped_append_popped (pops : List PopResult) (r : CsvRow) :
    (pops ++ [PopResult.popped r]).filterMap PopResult.row = pops.filterMap PopResult.row ++ [r] := by
  rw [List.filterMap_append]
  rfl

theorem popped_append_empty (pops : List PopResult) (unread : Nat) :
    (pops ++ [PopResult.empty unread]).filterMap PopResult.row = pops.filterMap PopResult.row := by
  rw [List.filterMap_append]
  exact List.append_nil _

theorem QueueInv.popEmpty {unread : Nat} (h : QueueInv k s) (hunread : unread = 0) :
    QueueInv k { s with popper := .idle, pops := s.pops ++ [.empty unread] } := by
  have hsame := popped_append_empty s.pops unread
  refine ⟨?_, ?_, ?_, trivial, h.full, ?_⟩
  · show s.queue.Holds _ _ (List.filterMap _ _).length
    rw [hsame]
    exact h.holds
  · show List.filterMap _ _ = s.accepted.take (List.filterMap _ _).length
    rw [hsame]
    exact h.inOrder
  · show PusherInv k s.queue _ (List.filterMap _ _).length _
    rw [hsame]
    exact h.pusher
  · intro u hmem
    rcases List.mem_append.mp hmem with hold | hnew
    · exact h.empty u hold
    · exact (PopResult.empty.inj (List.mem_singleton.mp hnew)).trans hunread

theorem QueueInv.take {r : CsvRow} (h : QueueInv k s) (hlt : s.popped.length < s.accepted.length)
    (hcell : r = s.queue.cells s.queue.tail) :
    QueueInv k { s with
      queue := { s.queue with tail := nextIndex k s.queue.tail }
      popper := .idle
      pops := s.pops ++ [.popped r] } := by
  have hnew := popped_append_popped s.pops r
  have hlen : ((s.pops ++ [PopResult.popped r]).filterMap PopResult.row).length =
      s.popped.length + 1 := by
    rw [hnew]
    exact List.length_append
  have hreleased := h.holds.release hlt
  rw [← nextIndex_eq] at hreleased
  refine ⟨?_, ?_, ?_, trivial, h.full, ?_⟩
  · show RingBuffer.Holds _ _ _ (List.filterMap _ _).length
    rw [hlen]
    exact hreleased
  · show List.filterMap _ _ = s.accepted.take (List.filterMap _ _).length
    rw [hlen, hnew, List.take_succ_eq_append_getElem hlt, ← h.inOrder, hcell, h.holds.read hlt]
    rfl
  · show PusherInv k _ _ (List.filterMap _ _).length _
    rw [hlen]
    exact h.pusher.release
  · intro u hmem
    rcases List.mem_append.mp hmem with hold | hmem
    · exact h.empty u hold
    · cases List.mem_singleton.mp hmem

theorem QueueInv.pop (h : QueueInv k s) (hs : s.pop k = some s') : QueueInv k s' := by
  have hpopper := h.popper
  unfold QueueRun.pop at hs
  cases hphase : s.popper with
  | idle =>
      rw [hphase] at hs
      cases hs
  | loadHead out =>
      rw [hphase] at hs
      obtain rfl := Option.some.inj hs
      exact ⟨h.holds, h.inOrder, h.pusher, ⟨_, h.holds.head, rfl, h.holds.taken_le, le_rfl⟩, h.full,
        h.empty⟩
  | loadTail out head unread =>
      rw [hphase] at hs hpopper
      obtain ⟨seen, rfl, hunread, hle, hseen⟩ := hpopper
      have hlt := h.holds.lt
      dsimp only at hs
      rw [h.holds.tail] at hs
      split at hs
      · next heq =>
        obtain rfl := Option.some.inj hs
        have hcounts := RingBuffer.eq_of_mod_eq hle (by omega) heq
        exact h.popEmpty (by omega)
      · next hne =>
        obtain rfl := Option.some.inj hs
        have hcounts : s.popped.length ≠ seen := fun heq => hne (by rw [heq])
        have hmore : s.popped.length < s.accepted.length := by omega
        exact ⟨h.holds, h.inOrder, h.pusher, ⟨h.holds.tail.symm, hmore, csvRowPlan.copyRest _ _⟩,
          h.full, h.empty⟩
  | copying out t parts =>
      rw [hphase] at hs hpopper
      obtain ⟨rfl, hlt, hrest⟩ := hpopper
      cases parts with
      | cons part parts =>
          obtain rfl := Option.some.inj hs
          exact ⟨h.holds, h.inOrder, h.pusher, ⟨rfl, hlt, hrest⟩, h.full, h.empty⟩
      | nil =>
          obtain rfl := Option.some.inj hs
          exact h.take hlt hrest

/-! ## Runs -/

theorem queueInv_reachable (h : (queueMachine k).Reachable s) : QueueInv k s := by
  refine h.invariant ?_ ?_
  · rintro s rfl
    exact queueInv_begin
  · intro s e s' _ hinv _ hs
    cases e with
    | push => exact hinv.push hs
    | pop => exact hinv.pop hs
    | callPush r =>
        simp only [queueMachine, queueStep] at hs
        split at hs
        · obtain rfl := Option.some.inj hs
          exact ⟨hinv.holds, hinv.inOrder, trivial, hinv.popper, hinv.full, hinv.empty⟩
        · cases hs
    | callPop out =>
        simp only [queueMachine, queueStep] at hs
        split at hs
        · obtain rfl := Option.some.inj hs
          exact ⟨hinv.holds, hinv.inOrder, hinv.pusher, trivial, hinv.full, hinv.empty⟩
        · cases hs

theorem QueueInv.indexes_lt (h : QueueInv k s) : ∀ i ∈ s.indexes, i < 2 ^ k := by
  have hhead : s.queue.head < 2 ^ k := h.holds.head ▸ Nat.mod_lt _ (Nat.two_pow_pos k)
  have htail : s.queue.tail < 2 ^ k := h.holds.tail ▸ Nat.mod_lt _ (Nat.two_pow_pos k)
  have hpusher := h.pusher
  have hpopper := h.popper
  intro i hi
  simp only [QueueRun.indexes, List.mem_append] at hi
  rcases hi with (hi | hi) | hi
  · cases hphase : s.pusher <;> rw [hphase] at hi hpusher
    case copying r head parts =>
        obtain rfl := List.mem_singleton.mp hi
        exact hpusher.1 ▸ hhead
    all_goals cases hi
  · cases hphase : s.popper <;> rw [hphase] at hi hpopper
    case copying out t parts =>
        obtain rfl := List.mem_singleton.mp hi
        exact hpopper.1 ▸ htail
    all_goals cases hi
  · rcases List.mem_pair.mp hi with rfl | rfl
    · exact hhead
    · exact htail

/-- However the two threads take turns, the queue is a FIFO of `2 ^ k - 1` rows. -/
theorem row_queue_fifo (h : (queueMachine k).Reachable s) : BoundedFifo k s := by
  have hinv := queueInv_reachable h
  exact ⟨hinv.inOrder ▸ List.take_prefix _ _, hinv.full, hinv.empty, hinv.indexes_lt⟩

def sampleRow (ts : UInt64) : CsvRow := { zeroRow with ts }

/-- One row goes through a queue of two slots, a second push finds it full before, and
a second pop empty after. -/
theorem row_queue_fifo_two :
    ∃ s : QueueRun, BoundedFifo 1 s ∧ s.popped = [sampleRow 7] ∧ s.pushes.length = 2 ∧
      s.pops.length = 2 := by
  have hstart : (queueMachine 1).Reachable .begin := .initial rfl
  obtain ⟨s, hreach, hs⟩ := hstart.after_any
    (.callPush (sampleRow 7) :: List.replicate 16 .push ++
      .callPush (sampleRow 8) :: List.replicate 2 .push ++
      .callPop zeroRow :: List.replicate 16 .pop ++
      .callPop zeroRow :: List.replicate 2 .pop)
    (fun s => s.popped = [sampleRow 7] ∧ s.pushes.length = 2 ∧ s.pops.length = 2)
    (by decide +kernel)
  exact ⟨s, row_queue_fifo hreach, of_decide_eq_true hs⟩

end QnxHypervisor.MotorRecorder
