import Mathlib.Algebra.Group.Nat.Defs
import PowerDNS.Lib.Iterators
import PowerDNS.Lib.SequencedIndex

/-!
# Trimming a cache: `pruneCollection`

A cache whose entries have a `getTTD()` and sit in a sequence is trimmed in two steps. First some entries
at the front of the sequence are looked at and those that have expired are erased, one at a time, while the
loop goes on; then, if the cache is still too large, what is missing is cut off at the front.

The loops are written with the iterators of `Iterators`, so a result means that no iterator was used after
its entry had gone. All counts are `unsigned int`, the size of the cache included. As long as that is the
true size the limit is kept (`prunes_iff`); from 2^32 entries on it is not.
-/

namespace PowerDNS

open Iterators List UInt32

universe u

namespace CacheCleaner

section Model

variable {κ α : Type u} [DecidableEq κ] (key : α → κ) (getTTD : α → UInt32) (now toTrim : UInt32)

/-- The loop over the front of the sequence. The first argument is `lookAt - tried`. -/
def eraseExpired : Nat → List α → Option κ → UInt32 → Option (List α × UInt32)
  | 0, sidx, _, erased => some (sidx, erased)
  | left + 1, sidx, iter, erased =>
    if iter = none then some (sidx, erased)
    else do
      let entry ← deref key sidx iter
      let following ← next key sidx iter
      if getTTD entry < now then
        let sidx ← erase key sidx iter
        let erased := erased + 1
        if toTrim ≠ 0 ∧ erased > toTrim then some (sidx, erased)
        else eraseExpired left sidx following erased
      else if toTrim ≠ 0 ∧ erased > toTrim then some (sidx, erased)
      else eraseExpired left sidx following erased

/-- `toTrim` as it is computed first. -/
def excess (maxCached cacheSize : UInt32) : UInt32 :=
  if maxCached ≠ 0 ∧ cacheSize > maxCached then cacheSize - maxCached else 0

/-- `lookAt`. -/
def lookAt (cacheSize scanFraction toTrim : UInt32) : UInt32 :=
  if toTrim ≠ 0 then 5 * toTrim else cacheSize / scanFraction

/-- `pruneCollection(collection, maxCached, scanFraction)`. -/
def pruneCollection (maxCached : UInt32) (collection : List α) (scanFraction : UInt32 := 1000) :
    Option (List α) := do
  let cacheSize := UInt32.ofNat collection.length
  let toTrim := excess maxCached cacheSize
  let r ← eraseExpired key getTTD now toTrim (lookAt cacheSize scanFraction toTrim).toNat collection
    (front key collection) 0
  if r.2 ≥ toTrim then some r.1
  else
    -- just lob it off from the beginning
    let eiter ← advance key r.1 (toTrim - r.2).toNat (front key r.1)
    eraseRange key r.1 (front key r.1) eiter

end Model

/-! ### Entries are only taken out -/

section Sublists

variable {κ α : Type u} [DecidableEq κ] {key : α → κ} {getTTD : α → UInt32} {now toTrim : UInt32}

theorem eraseExpired_sublist {left : Nat} {sidx : List α} {iter : Option κ} {erased : UInt32}
    {r : List α × UInt32} (h : eraseExpired key getTTD now toTrim left sidx iter erased = some r) :
    r.1.Sublist sidx := by
  induction left generalizing sidx iter erased with
  | zero =>
    obtain rfl := Option.some.inj h
    exact List.Sublist.refl _
  | succ left ih =>
    unfold eraseExpired at h
    split at h
    · obtain rfl := Option.some.inj h
      exact List.Sublist.refl _
    · obtain ⟨entry, _, h⟩ := Option.bind_eq_some_iff.mp h
      obtain ⟨following, _, h⟩ := Option.bind_eq_some_iff.mp h
      split at h
      · obtain ⟨sidx', herase, h⟩ := Option.bind_eq_some_iff.mp h
        dsimp only at h
        split at h
        · obtain rfl := Option.some.inj h
          exact erase_sublist herase
        · exact (ih h).trans (erase_sublist herase)
      · split at h
        · obtain rfl := Option.some.inj h
          exact List.Sublist.refl _
        · exact ih h

theorem pruneCollection_sublist {maxCached scanFraction : UInt32} {collection left : List α}
    (h : pruneCollection key getTTD now maxCached collection scanFraction = some left) :
    left.Sublist collection := by
  obtain ⟨r, hr, h⟩ := Option.bind_eq_some_iff.mp h
  split at h
  · obtain rfl := Option.some.inj h
    exact eraseExpired_sublist hr
  · obtain ⟨eiter, _, h⟩ := Option.bind_eq_some_iff.mp h
    exact (eraseRange_sublist h).trans (eraseExpired_sublist hr)

/-- `pruneCollection` on a container in which the keys are unique. -/
def prune (getTTD : α → UInt32) (now maxCached : UInt32) (collection : SequencedIndex κ α key) :
    SequencedIndex κ α key :=
  ((pruneCollection key getTTD now maxCached collection.items).pmap collection.sublist
    fun _ h => pruneCollection_sublist h).getD collection

theorem mem_of_mem_prune {maxCached : UInt32} {collection : SequencedIndex κ α key} {x : α}
    (h : x ∈ prune getTTD now maxCached collection) : x ∈ collection := by
  unfold prune at h
  cases hleft : pruneCollection key getTTD now maxCached collection.items with
  | none =>
    simp only [hleft, Option.pmap_none, Option.getD_none] at h
    exact h
  | some left =>
    simp only [hleft, Option.pmap_some, Option.getD_some] at h
    exact SequencedIndex.mem_of_mem_sublist h

end Sublists

/-! ### What is taken out -/

section Outcome

variable {κ α : Type u} {key : α → κ} {getTTD : α → UInt32} {now toTrim : UInt32}

/-- Has not expired. -/
def alive (getTTD : α → UInt32) (now : UInt32) (e : α) : Bool := !decide (getTTD e < now)

/-- What a trimming to `maxCached` entries has to do: the entries at the front are looked at one after
the other, and the expired ones go; of the rest, entries are cut off at the front as long as there are too
many. -/
structure Prunes (getTTD : α → UInt32) (now : UInt32) (maxCached : Nat) (collection left : List α) :
    Prop where
  within : left.length ≤ maxCached
  cut : ∃ looked unseen, collection = looked ++ unseen ∧
    ∃ n, n ≤ (looked.filter (alive getTTD now) ++ unseen).length - maxCached ∧
      left = (looked.filter (alive getTTD now) ++ unseen).drop n

variable [DecidableEq κ]

/-- **The loop**: it gets through, looks at the entries in order, and erases the expired ones of those it
has looked at. It stops as soon as more than `toTrim` are gone. -/
theorem eraseExpired_spec {left : Nat} {before rest : List α} {erased : UInt32}
    (hnodup : ((before ++ rest).map key).Nodup) (hsmall : erased.toNat + left < 2 ^ 32)
    (hstop : toTrim ≠ 0 → erased.toNat ≤ toTrim.toNat) :
    ∃ looked unseen, rest = looked ++ unseen ∧ looked.length ≤ left ∧
      ∃ erased', eraseExpired key getTTD now toTrim left (before ++ rest) (front key rest) erased =
          some (before ++ (looked.filter (alive getTTD now) ++ unseen), erased') ∧
        erased'.toNat + (looked.filter (alive getTTD now)).length = erased.toNat + looked.length ∧
        (toTrim ≠ 0 → erased'.toNat ≤ toTrim.toNat + 1) := by
  induction left generalizing before rest erased with
  | zero =>
    exact ⟨[], rest, rfl, Nat.le_refl 0, erased, rfl, rfl, fun hne => Nat.le_succ_of_le (hstop hne)⟩
  | succ left ih =>
    cases rest with
    | nil =>
      exact ⟨[], [], rfl, Nat.zero_le _, erased, rfl, rfl, fun hne => Nat.le_succ_of_le (hstop hne)⟩
    | cons x rest =>
      unfold eraseExpired
      rw [front_cons, if_neg (Option.some_ne_none _), deref_split hnodup, next_split hnodup]
      dsimp only [bind, Option.bind]
      by_cases hexpired : getTTD x < now
      · have hdead : alive getTTD now x = false := by simp [alive, hexpired]
        have hone : (erased + 1).toNat = erased.toNat + 1 :=
          (UInt32.toNat_add erased 1).trans (Nat.mod_eq_of_lt (Nat.lt_of_le_of_lt (by simp) hsmall))
        rw [if_pos hexpired, erase_split hnodup]
        dsimp only
        have hnodup' : ((before ++ rest).map key).Nodup :=
          hnodup.sublist (((sublist_cons_self x rest).append_left before).map key)
        by_cases henough : toTrim ≠ 0 ∧ erased + 1 > toTrim
        · rw [if_pos henough]
          refine ⟨[x], rest, rfl, by simp, erased + 1, by simp [hdead], by simp [hdead, hone], fun hne => ?_⟩
          have := hstop hne
          omega
        · rw [if_neg henough]
          have hnext : toTrim ≠ 0 → (erased + 1).toNat ≤ toTrim.toNat := by
            intro hne
            have hle : ¬ erased + 1 > toTrim := fun hgt => henough ⟨hne, hgt⟩
            exact le_iff_toNat_le.mp (UInt32.not_lt.mp hle)
          obtain ⟨looked, unseen, rfl, hlen, erased', hrun, hcount, hbound⟩ :=
            ih hnodup' (by omega) hnext
          refine ⟨x :: looked, unseen, rfl, by simpa using hlen, erased', ?_, ?_, hbound⟩
          · rw [hrun, filter_cons_of_neg (by simp [hdead])]
          · rw [filter_cons_of_neg (by simp [hdead]), hcount, hone, length_cons]
            omega
      · have halive : alive getTTD now x = true := by simp [alive, hexpired]
        have hgoes : ¬(toTrim ≠ 0 ∧ erased > toTrim) := by
          rintro ⟨hne, hgt⟩
          have := hstop hne
          have := lt_iff_toNat_lt.mp hgt
          omega
        rw [if_neg hexpired, if_neg hgoes]
        have hassoc : before ++ x :: rest = before ++ [x] ++ rest := by simp
        rw [hassoc] at hnodup ⊢
        obtain ⟨looked, unseen, rfl, hlen, erased', hrun, hcount, hbound⟩ :=
          ih hnodup (by omega) hstop
        refine ⟨x :: looked, unseen, rfl, by simpa using hlen, erased', ?_, ?_, hbound⟩
        · rw [hrun, filter_cons_of_pos halive]
          simp
        · rw [filter_cons_of_pos halive, length_cons, length_cons]
          omega

/-- Cutting off at the front. -/
theorem lob_off {kept : List α} {n : Nat} (hnodup : (kept.map key).Nodup) (hn : n ≤ kept.length) :
    ((advance key kept n (front key kept)).bind fun eiter =>
      eraseRange key kept (front key kept) eiter) = some (kept.drop n) := by
  have hsplit : kept.take n ++ kept.drop n = kept := take_append_drop n kept
  have hlength : (kept.take n).length = n := length_take_of_le hn
  rw [← hsplit] at hnodup
  have hadvance := @advance_split κ α key [] (kept.drop n) _ (kept.take n) hnodup
  rw [nil_append, hsplit, hlength] at hadvance
  have hrange := eraseRange_split hnodup
  rw [hsplit] at hrange
  rw [hadvance, Option.bind_some, hrange]

/-- `excess` as a number. -/
theorem toNat_excess (maxCached cacheSize : UInt32) (hmax : maxCached ≠ 0) :
    (excess maxCached cacheSize).toNat = cacheSize.toNat - maxCached.toNat := by
  unfold excess
  split
  next h => exact UInt32.toNat_sub_of_le _ _ (UInt32.le_of_lt h.2)
  next h =>
    have hle : ¬ cacheSize > maxCached := fun hgt => h ⟨hmax, hgt⟩
    exact (Nat.sub_eq_zero_of_le (le_iff_toNat_le.mp (UInt32.not_lt.mp hle))).symm

/-- **The whole function**, for any size: what the loop leaves, cut by what is missing from `toTrim`. -/
theorem pruneCollection_spec (getTTD : α → UInt32) (now : UInt32) (collection : SequencedIndex κ α key)
    {maxCached : UInt32} (hmax : maxCached ≠ 0) :
    ∃ looked unseen, collection.items = looked ++ unseen ∧
      ∃ erased, erased + (looked.filter (alive getTTD now)).length = looked.length ∧
        (let toTrim := collection.items.length % 2 ^ 32 - maxCached.toNat
         pruneCollection key getTTD now maxCached collection.items =
            some ((looked.filter (alive getTTD now) ++ unseen).drop (toTrim - erased)) ∧
          (toTrim ≠ 0 → erased ≤ toTrim + 1) ∧
          (toTrim = 0 → erased ≤ collection.items.length % 2 ^ 32 / 1000)) := by
  have hsize : (UInt32.ofNat collection.items.length).toNat = collection.items.length % 2 ^ 32 :=
    toNat_ofNat'
  have htrim := toNat_excess maxCached (UInt32.ofNat collection.items.length) hmax
  rw [hsize] at htrim
  generalize htoTrim : excess maxCached (UInt32.ofNat collection.items.length) = toTrim at htrim
  obtain ⟨looked, unseen, hitems, hlooked, erased, hrun, hcount, hbound⟩ :=
    @eraseExpired_spec κ α key getTTD now toTrim _
      (lookAt (UInt32.ofNat collection.items.length) 1000 toTrim).toNat [] collection.items 0
      collection.nodup (by simpa using toNat_lt _) (fun _ => Nat.zero_le _)
  rw [nil_append, nil_append] at hrun
  have hzero : (0 : UInt32).toNat = 0 := rfl
  rw [hzero, Nat.zero_add] at hcount
  refine ⟨looked, unseen, hitems, erased.toNat, hcount, ?_⟩
  rw [← htrim]
  refine ⟨?_, fun hne => hbound fun h => hne (congrArg UInt32.toNat h), fun h0 => ?_⟩
  · have hkept : (looked.filter (alive getTTD now) ++ unseen).length + erased.toNat =
        collection.items.length := by
      rw [hitems, length_append, length_append, ← hcount]
      omega
    have hnodup : ((looked.filter (alive getTTD now) ++ unseen).map key).Nodup := by
      refine collection.nodup.sublist (List.Sublist.map key ?_)
      rw [hitems]
      exact filter_sublist.append (List.Sublist.refl _)
    unfold pruneCollection
    dsimp only
    rw [htoTrim, hrun, Option.bind_eq_bind, Option.bind_some]
    by_cases henough : erased ≥ toTrim
    · rw [if_pos henough, Nat.sub_eq_zero_of_le (le_iff_toNat_le.mp henough), drop_zero]
    · have hlt : erased < toTrim := UInt32.not_le.mp henough
      rw [if_neg henough, UInt32.toNat_sub_of_le _ _ (UInt32.le_of_lt hlt)]
      refine lob_off hnodup (Nat.le_of_add_le_add_right (b := erased.toNat) ?_)
      rw [hkept, htrim]
      omega
  · have hzero : toTrim = 0 := UInt32.toNat_inj.mp h0
    have hlook : (lookAt (UInt32.ofNat collection.items.length) 1000 toTrim).toNat =
        collection.items.length % 2 ^ 32 / 1000 := by
      rw [hzero, ← hsize]
      exact UInt32.toNat_div _ _
    omega

/-- As many entries as an `unsigned int` counts are pruned as they should be. -/
theorem prunes_of_fits (collection : SequencedIndex κ α key) {maxCached : UInt32} (hmax : 0 < maxCached)
    (hsmall : collection.items.length < 2 ^ 32) :
    ∃ left, pruneCollection key getTTD now maxCached collection.items = some left ∧
      Prunes getTTD now maxCached.toNat collection.items left := by
  obtain ⟨looked, unseen, hitems, erased, hcount, hrun, -, -⟩ :=
    pruneCollection_spec getTTD now collection (UInt32.ne_of_lt hmax).symm
  have hsize : collection.items.length = looked.length + unseen.length := by
    rw [hitems, length_append]
  refine ⟨_, hrun, ?_, looked, unseen, hitems, _, ?_, rfl⟩
  · rw [length_drop, length_append]
    omega
  · rw [length_append]
    omega

/-- With more of them the cache stays too large: what is cut is measured by what the size is modulo
2^32. -/
theorem stays_too_large (getTTD : α → UInt32) (now : UInt32) (collection : SequencedIndex κ α key)
    {maxCached : UInt32} (hmax : 0 < maxCached)
    (hlarge : 2 ^ 32 ≤ collection.items.length) :
    ∃ left, pruneCollection key getTTD now maxCached collection.items = some left ∧
      maxCached.toNat < left.length := by
  obtain ⟨looked, unseen, hitems, erased, hcount, hrun, hbound, hscan⟩ :=
    pruneCollection_spec getTTD now collection (UInt32.ne_of_lt hmax).symm
  have hsize : collection.items.length = looked.length + unseen.length := by
    rw [hitems, length_append]
  have hlimit : maxCached.toNat < 2 ^ 32 := toNat_lt maxCached
  refine ⟨_, hrun, ?_⟩
  rw [length_drop, length_append]
  by_cases hzero : collection.items.length % 2 ^ 32 - maxCached.toNat = 0
  · have := hscan hzero
    omega
  · have := hbound hzero
    omega

/-- **When the limit is kept**: `pruneCollection` does what it should exactly as long as the number of
entries fits an `unsigned int`. -/
theorem prunes_iff (collection : SequencedIndex κ α key) (getTTD : α → UInt32) (now : UInt32)
    {maxCached : UInt32} (hmax : 0 < maxCached) :
    (∃ left, pruneCollection key getTTD now maxCached collection.items = some left ∧
      Prunes getTTD now maxCached.toNat collection.items left) ↔ collection.items.length < 2 ^ 32 := by
  constructor
  · rintro ⟨left, hleft, hprunes⟩
    by_contra hlarge
    obtain ⟨left', hleft', htoo⟩ :=
      stays_too_large getTTD now collection hmax (Nat.le_of_not_lt hlarge)
    obtain rfl := Option.some.inj (hleft.symm.trans hleft')
    exact Nat.not_lt_of_le hprunes.within htoo
  · exact prunes_of_fits collection hmax

end Outcome

/-- Four entries, of which two have expired, and room for two. -/
def fourEntries : SequencedIndex Nat (Nat × UInt32) Prod.fst := ⟨[(0, 5), (1, 20), (2, 5), (3, 20)], by decide⟩

theorem four_entries_pruned :
    ∃ left, pruneCollection Prod.fst Prod.snd 10 2 fourEntries.items = some left ∧
      Prunes Prod.snd 10 2 fourEntries.items left :=
  (prunes_iff fourEntries Prod.snd 10 (by decide)).mpr (by decide)

/-- Only the expired entries at the front of a larger cache have to go. -/
example : pruneCollection Prod.fst Prod.snd 10 2 fourEntries.items = some [(1, 20), (3, 20)] := by decide

/-- `n` entries. -/
def entries (n : Nat) : SequencedIndex Nat Nat id where
  items := List.range n
  nodup := by
    rw [map_id]
    exact nodup_range

theorem length_entries (n : Nat) : (entries n).items.length = n := length_range

/-- **2^32 + 1 expired entries** and room for ten: the size is taken for 1, and nothing is done. -/
theorem too_many_entries_stay :
    ¬∃ left, pruneCollection id (fun _ => 0) 1 10 (entries (2 ^ 32 + 1)).items = some left ∧
      Prunes (fun _ => 0) 1 10 (entries (2 ^ 32 + 1)).items left := by
  have hlength := length_entries (2 ^ 32 + 1)
  obtain ⟨left', hleft', htoo⟩ := stays_too_large (fun _ => 0) 1 (entries (2 ^ 32 + 1))
    (show (0 : UInt32) < 10 by decide) (by omega)
  rintro ⟨left, hleft, hprunes⟩
  obtain rfl := Option.some.inj (hleft.symm.trans hleft')
  exact Nat.not_lt_of_le hprunes.within htoo

end CacheCleaner

end PowerDNS
