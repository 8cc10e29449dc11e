import PowerDNS.Base.Octets
import PowerDNS.Lib.GuardedRun

/-!
# The buffer between input and output: `RingBuffer`

The buffer is a vector with two positions in it. `contents` is what a reader of it gets to see in the end: `store`
puts octets behind it, and `advance` takes them from its front. `get` shows as much of the front as is contiguous.
`WellFormed` says that the positions are in the vector, and that no more is kept than the buffer has been made for.
A run of it is one of a queue (`run_as_queue`).
-/

namespace PowerDNS

open List Option

/-- `RingBuffer`. -/
structure RingBuffer where
  d_vector : Octets
  d_publicSize : Nat
  d_rpos : Nat := 0
  d_wpos : Nat := 0
  deriving DecidableEq

namespace RingBuffer

/-! ### The code -/

/-- The constructor. -/
def ofSize (size : Nat) : RingBuffer := { d_vector := List.replicate (size + 1) 0, d_publicSize := size }

/-- `room`. -/
def room (rb : RingBuffer) : Nat :=
  if rb.d_rpos = rb.d_wpos then rb.d_publicSize
  else if rb.d_rpos < rb.d_wpos then rb.d_rpos + rb.d_publicSize - rb.d_wpos
  else rb.d_rpos - rb.d_wpos - 1

/-- `available`. -/
def available (rb : RingBuffer) : Nat :=
  if rb.d_rpos = rb.d_wpos then 0
  else if rb.d_rpos < rb.d_wpos then rb.d_wpos - rb.d_rpos
  else rb.d_wpos + rb.d_vector.length - rb.d_rpos

/-- `contiguousRoom`. -/
def contiguousRoom (rb : RingBuffer) : Nat := rb.d_vector.length - rb.d_wpos

/-- `contiguousAvailable`. -/
def contiguousAvailable (rb : RingBuffer) : Nat :=
  if rb.d_rpos < rb.d_wpos then rb.d_wpos - rb.d_rpos else rb.d_vector.length - rb.d_rpos

/-- `copy(block, block + len, d_vector.begin() + pos)`. -/
def copyIn (rb : RingBuffer) (block : Octets) (pos : Nat) : Octets :=
  rb.d_vector.take pos ++ block ++ rb.d_vector.drop (pos + block.length)

/-- `store`, or an exception. -/
def store (rb : RingBuffer) (block : Octets) : Option RingBuffer :=
  if block = [] then some rb
  else if rb.room < block.length then none
  else
    let len := min block.length rb.contiguousRoom
    let rb := { rb with d_vector := rb.copyIn (block.take len) rb.d_wpos, d_wpos := rb.d_wpos + len }
    if block.length = len then some rb
    else some { rb with d_vector := rb.copyIn (block.drop len) 0, d_wpos := block.length - len }

/-- `get`: the buffer; the octets it shows begin at its read position, and there are `contiguousAvailable` of them. -/
def get (rb : RingBuffer) : RingBuffer := if rb.d_rpos = rb.d_vector.length then { rb with d_rpos := 0 } else rb

/-- The octets behind the pointer that `get` gives. -/
def shown (rb : RingBuffer) (len : Nat) : Octets := (rb.d_vector.drop rb.d_rpos).take len

/-- `advance`. -/
def advance (rb : RingBuffer) (bytes : Nat) : RingBuffer :=
  let rpos := rb.d_rpos + bytes
  { rb with d_rpos := if rb.d_vector.length < rpos then rpos - rb.d_vector.length else rpos }

/-! ### The octets in the buffer -/

/-- What is in the buffer, in order. -/
def contents (rb : RingBuffer) : Octets :=
  if rb.d_rpos ≤ rb.d_wpos then (rb.d_vector.take rb.d_wpos).drop rb.d_rpos
  else rb.d_vector.drop rb.d_rpos ++ rb.d_vector.take rb.d_wpos

/-- The positions are in the vector, and the octets between them are no more than the buffer is made for. -/
structure WellFormed (rb : RingBuffer) : Prop where
  length : rb.d_vector.length = rb.d_publicSize + 1
  rpos : rb.d_rpos ≤ rb.d_vector.length
  wpos : rb.d_wpos ≤ rb.d_vector.length
  between : rb.d_wpos ≤ rb.d_rpos + rb.d_publicSize

variable {rb : RingBuffer}

theorem wellFormed_ofSize (size : Nat) : (ofSize size).WellFormed :=
  ⟨length_replicate, Nat.zero_le _, Nat.zero_le _, Nat.zero_le _⟩

theorem length_contents (h : rb.WellFormed) : rb.contents.length = rb.available := by
  obtain ⟨hlength, hrpos, hwpos, -⟩ := h
  unfold contents available
  split
  · rw [length_drop, length_take, Nat.min_eq_left hwpos]
    split
    · omega
    · rw [if_pos (by omega)]
  · rw [if_neg (by omega), if_neg (by omega), length_append, length_drop, length_take,
      Nat.min_eq_left hwpos]
    omega

/-- All the room is in use, or still there. -/
theorem available_add_room (h : rb.WellFormed) : rb.available + rb.room = rb.d_publicSize := by
  obtain ⟨hlength, hrpos, hwpos, hbetween⟩ := h
  unfold available room
  split
  · omega
  · split <;> omega

theorem contents_eq_nil_iff (h : rb.WellFormed) : rb.contents = [] ↔ rb.available = 0 := by
  rw [← length_contents h, length_eq_zero_iff]

/-! ### What the operations do to them -/

theorem wellFormed_get (h : rb.WellFormed) (havailable : rb.available ≠ 0) : rb.get.WellFormed := by
  obtain ⟨hlength, hrpos, hwpos, hbetween⟩ := h
  unfold available at havailable
  unfold get
  split
  · refine ⟨hlength, Nat.zero_le _, hwpos, ?_⟩
    dsimp only
    split at havailable <;> omega
  · exact ⟨hlength, hrpos, hwpos, hbetween⟩

theorem contents_get (h : rb.WellFormed) (havailable : rb.available ≠ 0) : rb.get.contents = rb.contents := by
  unfold available at havailable
  unfold get
  split
  next hend =>
    have hbefore : ¬ rb.d_rpos ≤ rb.d_wpos := by
      have hwpos := h.wpos
      split at havailable <;> omega
    unfold contents
    rw [if_neg hbefore, hend, drop_length, nil_append]
    rfl
  · rfl

/-- `get` shows something, when there is something. -/
theorem contiguousAvailable_get (h : rb.WellFormed) (havailable : rb.available ≠ 0) :
    0 < rb.get.contiguousAvailable ∧ rb.get.contiguousAvailable ≤ rb.get.available := by
  have hlength := length_contents (wellFormed_get h havailable)
  rw [contents_get h havailable, length_contents h] at hlength
  rw [← hlength]
  have hwf := wellFormed_get h havailable
  have hbegins : rb.get.d_rpos ≠ rb.get.d_vector.length := by
    unfold get
    split
    next hend =>
      rw [h.length]
      exact (Nat.succ_ne_zero _).symm
    next hend => exact hend
  rw [hlength] at havailable ⊢
  obtain ⟨-, hrpos, hwpos, -⟩ := hwf
  revert havailable hbegins hrpos hwpos
  intro havailable hbegins hrpos hwpos
  unfold available at havailable ⊢
  unfold contiguousAvailable
  split at havailable
  · exact absurd rfl havailable
  next hne =>
    split <;> omega

theorem shown_eq (h : rb.WellFormed) {len : Nat} (hlen : len ≤ rb.contiguousAvailable)
    (havailable : len ≤ rb.available) : rb.shown len = rb.contents.take len := by
  unfold shown contents
  unfold contiguousAvailable at hlen
  unfold available at havailable
  have hwpos := h.wpos
  split
  next hle =>
    rw [drop_take, take_take, Nat.min_eq_left]
    split at hlen
    · exact hlen
    · rw [if_pos (by omega)] at havailable
      omega
  next hlt =>
    rw [if_neg (by omega)] at hlen
    rw [take_append_of_le_length (by rw [length_drop]; exact hlen)]

/-- What is shown ends with the vector, so the read position does not wrap. -/
theorem advance_eq (h : rb.WellFormed) {len : Nat} (hlen : len ≤ rb.contiguousAvailable) :
    rb.d_rpos + len ≤ rb.d_vector.length ∧ rb.advance len = { rb with d_rpos := rb.d_rpos + len } := by
  have hrpos := h.rpos
  have hwpos := h.wpos
  unfold contiguousAvailable at hlen
  have hend : rb.d_rpos + len ≤ rb.d_vector.length := by split at hlen <;> omega
  refine ⟨hend, ?_⟩
  unfold advance
  dsimp only
  rw [if_neg (Nat.not_lt.mpr hend)]

theorem wellFormed_advance (h : rb.WellFormed) {len : Nat} (hlen : len ≤ rb.contiguousAvailable) :
    (rb.advance len).WellFormed := by
  obtain ⟨hend, hadvance⟩ := advance_eq h hlen
  rw [hadvance]
  refine ⟨h.length, hend, h.wpos, h.between.trans ?_⟩
  dsimp only
  omega

theorem contents_advance (h : rb.WellFormed) {len : Nat} (hlen : len ≤ rb.contiguousAvailable)
    (havailable : len ≤ rb.available) : (rb.advance len).contents = rb.contents.drop len := by
  obtain ⟨hend, hadvance⟩ := advance_eq h hlen
  rw [hadvance]
  unfold contiguousAvailable at hlen
  unfold available at havailable
  unfold contents
  dsimp only
  split
  next hle =>
    rw [if_pos (by omega), drop_drop]
  next hlt =>
    by_cases hbefore : rb.d_rpos ≤ rb.d_wpos
    · -- Only when nothing is taken off.
      split at havailable
      · omega
      · rw [if_pos (by omega)] at havailable
        omega
    · rw [if_neg hbefore, drop_append_of_le_length, drop_drop]
      rw [length_drop]
      split at hlen <;> omega

section Store

variable {block : Octets} {pos : Nat}

theorem length_copyIn (h : pos + block.length ≤ rb.d_vector.length) :
    (rb.copyIn block pos).length = rb.d_vector.length := by
  unfold copyIn
  rw [length_append, length_append, length_take, length_drop]
  omega

theorem take_copyIn (rb : RingBuffer) (block : Octets) (h : pos ≤ rb.d_vector.length) :
    (rb.copyIn block pos).take (pos + block.length) = rb.d_vector.take pos ++ block :=
  take_left' (by rw [length_append, length_take, Nat.min_eq_left h])

theorem drop_copyIn {k : Nat} (h : pos ≤ rb.d_vector.length) (hk : pos + block.length ≤ k) :
    (rb.copyIn block pos).drop k = rb.d_vector.drop k := by
  have hfront : (rb.d_vector.take pos ++ block).length = pos + block.length := by
    rw [length_append, length_take, Nat.min_eq_left h]
  rw [copyIn, drop_append, hfront, drop_of_length_le (by rw [hfront]; exact hk), nil_append,
    drop_drop, Nat.add_sub_cancel' hk]

/-- Up to the end of the vector. -/
theorem copyIn_end (h : pos + block.length = rb.d_vector.length) :
    rb.copyIn block pos = rb.d_vector.take pos ++ block := by
  rw [copyIn, h, drop_length, append_nil]

/-- **`store` puts the octets behind what is there.** -/
theorem store_spec (block : Octets) (h : rb.WellFormed) (hroom : block.length ≤ rb.room) :
    ∃ rb', rb.store block = some rb' ∧ rb'.WellFormed ∧ rb'.contents = rb.contents ++ block ∧
      rb'.d_publicSize = rb.d_publicSize := by
  obtain ⟨hlength, hrpos, hwpos, hbetween⟩ := h
  unfold store
  by_cases hnil : block = []
  · rw [if_pos hnil, hnil, append_nil]
    exact ⟨rb, rfl, ⟨hlength, hrpos, hwpos, hbetween⟩, rfl, rfl⟩
  rw [if_neg hnil, if_neg (Nat.not_lt.mpr hroom)]
  dsimp only
  unfold room at hroom
  unfold contiguousRoom
  by_cases hfits : block.length ≤ rb.d_vector.length - rb.d_wpos
  · rw [Nat.min_eq_left hfits, if_pos rfl, take_length]
    have hlast : rb.d_wpos + block.length ≤ rb.d_rpos + rb.d_publicSize := by
      split at hroom
      · omega
      · split at hroom <;> omega
    refine ⟨_, rfl, ⟨?_, ?_, ?_, hlast⟩, ?_, rfl⟩
    · dsimp only
      rw [length_copyIn (by omega), hlength]
    · dsimp only
      rw [length_copyIn (by omega)]
      exact hrpos
    · dsimp only
      rw [length_copyIn (by omega)]
      omega
    · unfold contents
      dsimp only
      rw [take_copyIn _ _ hwpos]
      by_cases hle : rb.d_rpos ≤ rb.d_wpos
      · rw [if_pos hle, if_pos (by omega), drop_append_of_le_length]
        rw [length_take]
        omega
      · rw [if_neg (by omega), if_neg (by omega)] at hroom
        rw [if_neg hle, if_neg (by omega), drop_copyIn hwpos (by omega), append_assoc]
  · -- The end of the vector is reached, and the rest goes to its beginning.
    have hle : rb.d_rpos ≤ rb.d_wpos := by
      by_contra hlt
      rw [if_neg (by omega), if_neg (by omega)] at hroom
      omega
    have hrest : block.length - (rb.d_vector.length - rb.d_wpos) < rb.d_rpos := by
      split at hroom
      · omega
      · rw [if_pos (by omega)] at hroom
        omega
    rw [Nat.min_eq_right (by omega), if_neg (by omega)]
    have hfirst : (block.take (rb.d_vector.length - rb.d_wpos)).length = rb.d_vector.length - rb.d_wpos := by
      rw [length_take]
      omega
    have hover : rb.d_wpos + (block.take (rb.d_vector.length - rb.d_wpos)).length = rb.d_vector.length := by
      omega
    obtain ⟨rb₁, hrb₁⟩ : ∃ rb₁ : RingBuffer, rb₁ = { rb with
        d_vector := rb.copyIn (block.take (rb.d_vector.length - rb.d_wpos)) rb.d_wpos
        d_wpos := rb.d_wpos + (rb.d_vector.length - rb.d_wpos) } := ⟨_, rfl⟩
    have hvector : rb₁.d_vector = rb.d_vector.take rb.d_wpos ++ block.take (rb.d_vector.length - rb.d_wpos) := by
      rw [hrb₁]
      exact copyIn_end hover
    have hsame : rb₁.d_vector.length = rb.d_vector.length := by
      rw [hrb₁]
      exact length_copyIn hover.le
    have hdropped : (block.drop (rb.d_vector.length - rb.d_wpos)).length =
        block.length - (rb.d_vector.length - rb.d_wpos) := length_drop
    have hinside : 0 + (block.drop (rb.d_vector.length - rb.d_wpos)).length ≤ rb₁.d_vector.length := by
      omega
    rw [← hrb₁]
    refine ⟨_, rfl, ⟨?_, ?_, ?_, ?_⟩, ?_, rfl⟩
    · dsimp only
      rw [length_copyIn hinside, hsame, hlength]
    · dsimp only
      rw [length_copyIn hinside, hsame]
      exact hrpos
    · dsimp only
      rw [length_copyIn hinside, hsame]
      omega
    · dsimp only
      omega
    · have hfront := take_copyIn rb₁ (block.drop (rb.d_vector.length - rb.d_wpos)) (Nat.zero_le _)
      rw [Nat.zero_add, hdropped, take_zero, nil_append] at hfront
      unfold contents
      dsimp only
      rw [if_neg (by omega), if_pos hle, hfront,
        drop_copyIn (Nat.zero_le _) (by rw [Nat.zero_add, hdropped]; exact hrest.le), hvector,
        drop_append_of_le_length (by rw [length_take]; omega), append_assoc, take_append_drop]

end Store

/-! ### As a queue -/

/-- What is done with a buffer. -/
inductive Event where
  | store (block : Octets)
  | get
  | advance (bytes : Nat)

/-- A buffer, and how many of the octets that the last `get` gave are not taken yet. -/
structure Use where
  rb : RingBuffer
  given : Nat

/-- An exception in `store` leaves the buffer as it is. -/
def Use.step (u : Use) : Event → Use
  | .store block => { u with rb := (u.rb.store block).getD u.rb }
  | .get => ⟨u.rb.get, u.rb.get.contiguousAvailable⟩
  | .advance bytes => ⟨u.rb.advance bytes, u.given - bytes⟩

/-- No more is taken than was given, and `get` is for a buffer that something is in. -/
def Use.Ok (u : Use) : Event → Prop
  | .store _ => True
  | .get => u.rb.available ≠ 0
  | .advance bytes => bytes ≤ u.given

instance (u : Use) : ∀ e, Decidable (u.Ok e)
  | .store _ => inferInstanceAs (Decidable True)
  | .get => inferInstanceAs (Decidable (_ ≠ _))
  | .advance _ => inferInstanceAs (Decidable (_ ≤ _))

/-- A queue of at most so many octets. -/
def queueStep (capacity : Nat) (queue : Octets) : Event → Octets
  | .store block => if queue.length + block.length ≤ capacity then queue ++ block else queue
  | .get => queue
  | .advance bytes => queue.drop bytes

/-- The octets in the buffer are those of the queue, and those that have been given are still in front. -/
structure Matches (capacity : Nat) (u : Use) (queue : Octets) : Prop where
  wellFormed : u.rb.WellFormed
  capacity : u.rb.d_publicSize = capacity
  contents : u.rb.contents = queue
  inside : u.rb.d_rpos + u.given ≤ u.rb.d_vector.length
  there : u.given ≤ u.rb.available

theorem store_eq_none_iff {block : Octets} : rb.store block = none ↔ rb.room < block.length := by
  unfold store
  by_cases hnil : block = []
  · rw [if_pos hnil, hnil]
    exact iff_of_false nofun (Nat.not_lt_zero _)
  · rw [if_neg hnil]
    dsimp only
    split
    next hmore => exact iff_of_true rfl hmore
    next hmore => split <;> exact iff_of_false nofun hmore

theorem store_rpos {block : Octets} {rb' : RingBuffer} (h : rb.store block = some rb') :
    rb'.d_rpos = rb.d_rpos := by
  unfold store at h
  dsimp only at h
  split at h
  · rw [← some.inj h]
  · split at h
    · exact nomatch h
    · split at h <;> rw [← some.inj h]

variable {capacity : Nat} {u : Use} {queue : Octets}

namespace Matches

theorem available_eq (h : Matches capacity u queue) : u.rb.available = queue.length := by
  rw [← h.contents, length_contents h.wellFormed]

theorem room_eq (h : Matches capacity u queue) : u.rb.room = capacity - queue.length := by
  have hall := available_add_room h.wellFormed
  rw [h.available_eq, h.capacity] at hall
  omega

theorem length_le (h : Matches capacity u queue) : queue.length ≤ capacity := by
  have hall := available_add_room h.wellFormed
  rw [h.available_eq, h.capacity] at hall
  exact hall ▸ Nat.le_add_right _ _

theorem given_le (h : Matches capacity u queue) : u.given ≤ u.rb.contiguousAvailable := by
  have hinside := h.inside
  have hthere := h.there
  unfold available at hthere
  unfold contiguousAvailable
  split at hthere
  · omega
  · split at hthere <;> split <;> omega

theorem step (h : Matches capacity u queue) {e : Event} (hok : u.Ok e) :
    Matches capacity (u.step e) (queueStep capacity queue e) := by
  cases e with
  | store block =>
    unfold Use.step queueStep
    dsimp only
    by_cases hroom : block.length ≤ u.rb.room
    · obtain ⟨rb', hstore, hwf, hcontents, hsize⟩ := store_spec block h.wellFormed hroom
      have hfits : queue.length + block.length ≤ capacity := by
        have hle := h.length_le
        rw [h.room_eq] at hroom
        omega
      rw [hstore, getD_some, if_pos hfits]
      refine ⟨hwf, hsize.trans h.capacity, hcontents.trans (by rw [h.contents]), ?_, ?_⟩
      · dsimp only
        rw [store_rpos hstore, hwf.length, hsize, ← h.wellFormed.length]
        exact h.inside
      · have hmore : u.rb.available ≤ rb'.available := by
          rw [← length_contents h.wellFormed, ← length_contents hwf, hcontents, length_append]
          exact Nat.le_add_right _ _
        exact h.there.trans hmore
    · have hfull : ¬queue.length + block.length ≤ capacity := by
        rw [h.room_eq] at hroom
        omega
      rw [store_eq_none_iff.mpr (Nat.lt_of_not_le hroom), getD_none, if_neg hfull]
      exact h
  | get =>
    have hwf := wellFormed_get h.wellFormed hok
    have hsize : u.rb.get.d_publicSize = u.rb.d_publicSize := by
      unfold get
      split <;> rfl
    refine ⟨hwf, hsize.trans h.capacity, (contents_get h.wellFormed hok).trans h.contents, ?_,
      (contiguousAvailable_get h.wellFormed hok).2⟩
    exact (advance_eq hwf le_rfl).1
  | advance bytes =>
    obtain ⟨hend, hadvance⟩ := advance_eq h.wellFormed (hok.trans h.given_le)
    have hcontents := contents_advance h.wellFormed (hok.trans h.given_le) (hok.trans h.there)
    have hwf := wellFormed_advance h.wellFormed (hok.trans h.given_le)
    refine ⟨hwf, ?_, hcontents.trans (by rw [h.contents]; rfl), ?_, ?_⟩
    · unfold Use.step
      exact h.capacity
    · have hinside := h.inside
      unfold Use.step
      dsimp only
      rw [hadvance]
      dsimp only
      omega
    · have hthere := h.there
      have hleft : (u.rb.advance bytes).available = u.rb.available - bytes := by
        rw [← length_contents hwf, hcontents, length_drop, length_contents h.wellFormed]
      unfold Use.step
      dsimp only
      omega

theorem run (h : Matches capacity u queue) {events : List Event}
    (hok : GuardedRun.Guarded Use.step Use.Ok u events) :
    Matches capacity (GuardedRun.run Use.step u events)
      (GuardedRun.run (queueStep capacity) queue events) := by
  induction events generalizing u queue with
  | nil => exact h
  | cons e events ih => exact ih (h.step hok.1) hok.2

end Matches

/-- **A buffer is a queue of octets**, in every run in which `get` is called for a buffer that
something is in. -/
theorem run_as_queue (capacity : Nat) (events : List Event)
    (hok : GuardedRun.Guarded Use.step Use.Ok ⟨ofSize capacity, 0⟩ events) :
    let rb := (GuardedRun.run Use.step ⟨ofSize capacity, 0⟩ events).rb
    let queue := GuardedRun.run (queueStep capacity) [] events
    let front := rb.get.shown rb.get.contiguousAvailable
    rb.available = queue.length ∧ rb.room = capacity - queue.length ∧
      (∀ block, rb.store block = none ↔ capacity < queue.length + block.length) ∧
      (queue ≠ [] → front ≠ [] ∧ front <+: queue ∧
        rb.get.available = rb.available ∧ rb.get.room = rb.room) := by
  have hinit : Matches capacity ⟨ofSize capacity, 0⟩ [] :=
    ⟨wellFormed_ofSize capacity, rfl, rfl, Nat.zero_le _, Nat.zero_le _⟩
  have hmatches := hinit.run hok
  intro rb queue front
  refine ⟨hmatches.available_eq, hmatches.room_eq, fun block => ?_, fun hne => ?_⟩
  · have hle := hmatches.length_le
    rw [store_eq_none_iff, hmatches.room_eq]
    exact Nat.sub_lt_iff_lt_add' hle
  · have hsome : rb.available ≠ 0 := by
      rw [hmatches.available_eq]
      exact fun hzero => hne (length_eq_zero_iff.mp hzero)
    have hget := hmatches.step (e := .get) hsome
    obtain ⟨hpos, hle⟩ := contiguousAvailable_get hmatches.wellFormed hsome
    have hfront : front = queue.take rb.get.contiguousAvailable :=
      (shown_eq hget.wellFormed le_rfl hle).trans (by rw [hget.contents]; rfl)
    refine ⟨fun hnil => ?_, hfront ▸ take_prefix _ _, ?_, ?_⟩
    · have hnone := congrArg length (hfront.symm.trans hnil)
      rw [length_take, ← hmatches.available_eq, length_nil] at hnone
      exact (Nat.lt_min.mpr ⟨hpos, Nat.pos_of_ne_zero hsome⟩).ne' hnone
    · exact hget.available_eq.trans hmatches.available_eq.symm
    · exact hget.room_eq.trans hmatches.room_eq.symm

theorem three_octets_through :
    (GuardedRun.run Use.step ⟨ofSize 4, 0⟩ [.store [1, 2, 3], .get, .advance 2]).rb.available = 1 :=
  (run_as_queue 4 [.store [1, 2, 3], .get, .advance 2]
    ⟨trivial, by decide, by decide, trivial⟩).1

/-- From a buffer that nothing is in, `get` gives what is left in the vector; when the positions are at its end, more
is available afterwards than the buffer is for. -/
theorem empty_shows_octets :
    ((ofSize 4).get.shown (ofSize 4).get.contiguousAvailable).length = 5 ∧
      (let rb := (GuardedRun.run Use.step ⟨ofSize 4, 0⟩
        [.store [1, 2, 3, 4], .get, .advance 4, .store [5], .get, .advance 1]).rb
      rb.available = 0 ∧ rb.get.available = 5) := by decide

end RingBuffer

end PowerDNS
