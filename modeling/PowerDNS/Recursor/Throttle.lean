import Mathlib
import PowerDNS.Lib.GuardedRun

/-!
# Not asking again: `Throttle`

A server that did not answer, or answered badly, is not to be asked the same question again for some time,
or until it would have been asked so often. `throttle` enters that as an expiry and a count, and
`shouldThrottle` looks it up, counts down and says whether to refuse.

What this is for is said by *restrictions*: each call of `throttle` sets one up, and each refusal uses up
one of the refusals it allows. A thing is to be refused as long as one of its restrictions is in force. The
table has one entry for a thing, whatever has been called, so the two agree only while one entry can stand
for all restrictions (`throttles_right`): not when a thing is asked about whose entry has run out but is
still there, and not when a throttle meets one that lasts longer or allows more.
-/

namespace PowerDNS

open GuardedRun Option List

/-- `Throttle<Thing>::entry`. -/
structure ThrottleEntry where
  ttd : Int
  count : Int
  deriving DecidableEq

/-- `Throttle<Thing>`. -/
structure Throttle (Thing : Type) where
  d_limit : UInt32 := 3
  d_ttl : UInt32 := 60
  d_last_clean : Int
  d_cont : Thing → Option ThrottleEntry := fun _ => none

namespace Throttle

variable {Thing : Type}

/-- The lazy cleaning at the start of `shouldThrottle`. -/
def clean (d : Throttle Thing) (now : Int) : Throttle Thing :=
  if now > d.d_last_clean + 300 then
    { d with
      d_last_clean := now
      d_cont := fun t => (d.d_cont t).filter fun e => !decide (e.ttd < now) }
  else d

/-- How long a throttle lasts. -/
def lasting (d : Throttle Thing) (ttl : UInt32) : UInt32 := if ttl ≠ 0 then ttl else d.d_ttl

/-- How many refusals it allows. -/
def allowance (d : Throttle Thing) (tries : UInt32) : UInt32 := if tries ≠ 0 then tries else d.d_limit

/-- The entry of a throttle; the count becomes an `int`. -/
def entryOf (d : Throttle Thing) (now : Int) (ttl tries : UInt32) : ThrottleEntry where
  ttd := now + (d.lasting ttl).toNat
  count := (d.allowance tries).toInt32.toInt

section Calls

variable [DecidableEq Thing]

/-- `shouldThrottle(now, t)`. -/
def shouldThrottle (d : Throttle Thing) (now : Int) (t : Thing) : Throttle Thing × Bool :=
  let d := d.clean now
  match d.d_cont t with
  | none => (d, false)
  | some e =>
    -- the count is compared first and then lowered; still listed, still blocked
    if now > e.ttd ∨ e.count < 0 then ({ d with d_cont := Function.update d.d_cont t none }, true)
    else
      ({ d with d_cont := Function.update d.d_cont t (some { e with count := e.count - 1 }) }, true)

/-- `throttle(now, t, ttl, tries)`. -/
def throttle (d : Throttle Thing) (now : Int) (t : Thing) (ttl tries : UInt32 := 0) : Throttle Thing :=
  let e := d.entryOf now ttl tries
  match d.d_cont t with
  | none => { d with d_cont := Function.update d.d_cont t (some e) }
  | some i =>
    if i.ttd > e.ttd ∨ i.count < e.count then { d with d_cont := Function.update d.d_cont t (some e) }
    else d

end Calls

/-! ### Restrictions -/

/-- What a call of `throttle` is meant to do: refuse `thing` until `ends`, at most `left` more times. -/
structure Restriction (Thing : Type) where
  thing : Thing
  ends : Int
  left : Int
  deriving DecidableEq

/-- A refusal uses up one of those the restrictions of the thing allow. -/
def Restriction.use [DecidableEq Thing] (t : Thing) (r : Restriction Thing) : Restriction Thing :=
  if r.thing = t then { r with left := r.left - 1 } else r

/-- A restriction of the thing is in force. -/
def InForce (now : Int) (t : Thing) (rs : List (Restriction Thing)) : Prop :=
  ∃ r ∈ rs, r.thing = t ∧ now ≤ r.ends ∧ 0 < r.left

/-- A call of one of the two member functions. -/
inductive Op (Thing : Type)
  | shouldThrottle (now : Int) (t : Thing)
  | throttle (now : Int) (t : Thing) (ttl tries : UInt32)

/-- The time of a call. -/
def Op.now : Op Thing → Int
  | .shouldThrottle now _ => now
  | .throttle now .. => now

/-- The table with the restrictions that have been set up, and the time of the last call. -/
structure Watched (Thing : Type) where
  table : Throttle Thing
  restrictions : List (Restriction Thing) := []
  clock : Int

/-- A call, with what it does to the restrictions. -/
def step [DecidableEq Thing] (s : Watched Thing) : Op Thing → Watched Thing
  | .shouldThrottle now t =>
    let r := s.table.shouldThrottle now t
    { table := r.1
      restrictions := if r.2 then s.restrictions.map (Restriction.use t) else s.restrictions
      clock := now }
  | .throttle now t ttl tries =>
    { table := s.table.throttle now t ttl tries
      restrictions :=
        ⟨t, now + (s.table.lasting ttl).toNat, (s.table.allowance tries).toNat⟩ :: s.restrictions
      clock := now }

/-- The clock does not go back. -/
def InOrder (s : Watched Thing) (o : Op Thing) : Prop := s.clock ≤ o.now

instance (s : Watched Thing) (o : Op Thing) : Decidable (InOrder s o) :=
  inferInstanceAs (Decidable (s.clock ≤ o.now))

/-- The calls for which one entry can stand for all restrictions of a thing. -/
def OneEntryDoes (s : Watched Thing) : Op Thing → Prop
  /- If the thing is listed, the entry has not run out. -/
  | .shouldThrottle now t => ∀ e ∈ (s.table.clean now).d_cont t, now ≤ e.ttd ∧ 0 < e.count
  /- If the thing is listed, the new restriction lasts as long and allows more, or ends at the same
  time; and its count fits an `int`. -/
  | .throttle now t ttl tries =>
    (s.table.allowance tries).toNat < 2 ^ 31 ∧
      ∀ e ∈ s.table.d_cont t, e.ttd ≤ (s.table.entryOf now ttl tries).ttd ∧
        (e.count < (s.table.entryOf now ttl tries).count ∨ e.ttd = (s.table.entryOf now ttl tries).ttd)

/-- What a call is meant to do: refuse what is restricted and nothing else, and never loosen a
restriction. -/
def Right [DecidableEq Thing] (s : Watched Thing) : Op Thing → Prop
  | .shouldThrottle now t => (s.table.shouldThrottle now t).2 = true ↔ InForce now t s.restrictions
  | .throttle now t ttl tries =>
    ∀ e ∈ s.table.d_cont t, ∃ e' ∈ (s.table.throttle now t ttl tries).d_cont t,
      e.ttd ≤ e'.ttd ∧ e.count ≤ e'.count

/-! ### One entry for all restrictions -/

/-- The restrictions of a thing are worth its entry: the entry is one of them, and the others that are
still of any use are not more than it. -/
def Stands (clock : Int) (rs : List (Restriction Thing)) (t : Thing) : Option ThrottleEntry → Prop
  | none => ∀ r ∈ rs, r.thing = t → r.ends < clock ∨ r.left ≤ 0
  | some e => (∃ r ∈ rs, r.thing = t ∧ r.ends = e.ttd ∧ r.left = e.count) ∧
      ∀ r ∈ rs, r.thing = t → (r.ends < clock ∨ r.left ≤ 0) ∨ r.ends ≤ e.ttd ∧ r.left ≤ e.count

/-- Every thing's entry stands for its restrictions. -/
def TableInv (s : Watched Thing) : Prop := ∀ t, Stands s.clock s.restrictions t (s.table.d_cont t)

section Steps

variable {clock now : Int} {rs : List (Restriction Thing)} {t t' : Thing} {entry : Option ThrottleEntry}
  {s : Watched Thing}

theorem Stands.mono (h : Stands clock rs t entry) (hle : clock ≤ now) : Stands now rs t entry := by
  cases entry with
  | none => exact fun r hr ht => (h r hr ht).imp_left fun hends => Int.lt_of_lt_of_le hends hle
  | some e =>
    refine ⟨h.1, fun r hr ht => (h.2 r hr ht).imp_left fun hdead => ?_⟩
    exact hdead.imp_left fun hends => Int.lt_of_lt_of_le hends hle

/-- An entry that has expired can go. -/
theorem Stands.filter (h : Stands now rs t entry) :
    Stands now rs t (entry.filter fun e => !decide (e.ttd < now)) := by
  cases entry with
  | none => exact h
  | some e =>
    by_cases hexpired : e.ttd < now
    · rw [filter_some_neg (by simpa using hexpired)]
      intro r hr ht
      rcases h.2 r hr ht with hdead | ⟨hends, -⟩
      · exact hdead
      · exact .inl (Int.lt_of_le_of_lt hends hexpired)
    · rw [filter_some_pos (by simpa using hexpired)]
      exact h

/-- Other things are not concerned by a new restriction. -/
theorem Stands.cons_of_ne (h : Stands clock rs t entry) {r : Restriction Thing} (hne : r.thing ≠ t) :
    Stands clock (r :: rs) t entry := by
  cases entry with
  | none =>
    intro r' hr' ht
    rcases mem_cons.mp hr' with rfl | hr'
    · exact absurd ht hne
    · exact h r' hr' ht
  | some e =>
    obtain ⟨⟨r₀, hr₀, hsame⟩, hall⟩ := h
    refine ⟨⟨r₀, mem_cons_of_mem _ hr₀, hsame⟩, fun r' hr' ht => ?_⟩
    rcases mem_cons.mp hr' with rfl | hr'
    · exact absurd ht hne
    · exact hall r' hr' ht

/-- What is in force, read off the entry. -/
theorem Stands.inForce_iff (h : Stands now rs t entry) :
    InForce now t rs ↔ ∃ e ∈ entry, now ≤ e.ttd ∧ 0 < e.count := by
  cases entry with
  | none =>
    constructor
    · rintro ⟨r, hr, ht, hends, hleft⟩
      rcases h r hr ht with hdead | hdead <;> omega
    · rintro ⟨e, he, -⟩
      cases he
  | some e =>
    obtain ⟨⟨r₀, hr₀, ht₀, hends₀, hleft₀⟩, hall⟩ := h
    constructor
    · rintro ⟨r, hr, ht, hends, hleft⟩
      refine ⟨e, rfl, ?_⟩
      rcases hall r hr ht with (hdead | hdead) | hle <;> omega
    · rintro ⟨_, he, hends, hleft⟩
      obtain rfl := some.inj he
      exact ⟨r₀, hr₀, ht₀, by omega, by omega⟩

/-- The cleaning takes out what has expired. -/
theorem Stands.clean (hinv : TableInv s) (hle : s.clock ≤ now) (t : Thing) :
    Stands now s.restrictions t ((s.table.clean now).d_cont t) := by
  have hstands := (hinv t).mono hle
  unfold Throttle.clean
  split
  · exact hstands.filter
  · exact hstands

/-- An allowance that fits an `int` is the count of the entry. -/
theorem entryOf_count (d : Throttle Thing) (now : Int) (ttl : UInt32) {tries : UInt32}
    (hfits : (d.allowance tries).toNat < 2 ^ 31) :
    (d.entryOf now ttl tries).count = (d.allowance tries).toNat :=
  BitVec.toInt_eq_toNat_of_lt (by
    change 2 * (d.allowance tries).toNat < 2 ^ 32
    omega)

variable [DecidableEq Thing]

theorem Restriction.use_of_ne {r : Restriction Thing} (hne : r.thing ≠ t) : r.use t = r := if_neg hne

theorem Restriction.use_self {r : Restriction Thing} (h : r.thing = t) :
    r.use t = { r with left := r.left - 1 } := if_pos h

@[simp] theorem Restriction.use_thing (r : Restriction Thing) : (r.use t).thing = r.thing := by
  unfold Restriction.use
  split <;> rfl

/-- A refusal does not concern other things. -/
theorem Stands.use_of_ne (h : Stands clock rs t entry) (hne : t ≠ t') :
    Stands clock (rs.map (Restriction.use t')) t entry := by
  have hsame : ∀ r ∈ rs.map (Restriction.use t'), r.thing = t → r ∈ rs := by
    intro r hr ht
    obtain ⟨r₀, hr₀, rfl⟩ := mem_map.mp hr
    rw [Restriction.use_thing] at ht
    rw [Restriction.use_of_ne (ht ▸ hne)]
    exact hr₀
  cases entry with
  | none => exact fun r hr ht => h r (hsame r hr ht) ht
  | some e =>
    obtain ⟨⟨r₀, hr₀, ht₀, hvalues⟩, hall⟩ := h
    refine ⟨⟨r₀, ?_, ht₀, hvalues⟩, fun r hr ht => hall r (hsame r hr ht) ht⟩
    exact mem_map.mpr ⟨r₀, hr₀, Restriction.use_of_ne (ht₀ ▸ hne)⟩

/-- The entry counts down with the restrictions it stands for. -/
theorem Stands.use {e : ThrottleEntry} (h : Stands clock rs t (some e)) :
    Stands clock (rs.map (Restriction.use t)) t (some { e with count := e.count - 1 }) := by
  obtain ⟨⟨r₀, hr₀, ht₀, hends₀, hleft₀⟩, hall⟩ := h
  refine ⟨⟨r₀.use t, mem_map_of_mem hr₀, ?_⟩, fun r hr ht => ?_⟩
  · rw [Restriction.use_self ht₀]
    exact ⟨ht₀, hends₀, congrArg (· - 1) hleft₀⟩
  · obtain ⟨r', hr', rfl⟩ := mem_map.mp hr
    rw [Restriction.use_thing] at ht
    rw [Restriction.use_self ht]
    dsimp only
    rcases hall r' hr' ht with (hends | hleft) | ⟨hends, hleft⟩
    · exact .inl (.inl hends)
    · exact .inl (.inr (by omega))
    · exact .inr ⟨hends, by omega⟩

/-! ### One call -/

/-- **What `shouldThrottle` does** when the entry has not run out: it refuses what is listed. -/
theorem shouldThrottle_eq (hok : OneEntryDoes s (.shouldThrottle now t)) :
    s.table.shouldThrottle now t =
      match (s.table.clean now).d_cont t with
      | none => (s.table.clean now, false)
      | some e =>
        ({ s.table.clean now with
            d_cont := Function.update (s.table.clean now).d_cont t (some { e with count := e.count - 1 }) },
          true) := by
  unfold shouldThrottle
  dsimp only
  cases hlisted : (s.table.clean now).d_cont t with
  | none => rfl
  | some e =>
    obtain ⟨hends, hcount⟩ := hok e hlisted
    dsimp only
    rw [if_neg]
    omega

/-- A call of `throttle` does not concern other things. -/
theorem throttle_d_cont_of_ne (d : Throttle Thing) (ttl tries : UInt32) (hne : t' ≠ t) :
    (d.throttle now t ttl tries).d_cont t' = d.d_cont t' := by
  unfold throttle
  dsimp only
  split
  · exact Function.update_of_ne hne _ _
  · split
    · exact Function.update_of_ne hne _ _
    · rfl

/-- The entry of the thing is the new one, or the old one where that does not end later and allows as
much. -/
theorem throttle_d_cont_self (d : Throttle Thing) (ttl tries : UInt32) :
    ((d.throttle now t ttl tries).d_cont t = some (d.entryOf now ttl tries) ∧
        ∀ i ∈ d.d_cont t, (d.entryOf now ttl tries).ttd < i.ttd ∨
          i.count < (d.entryOf now ttl tries).count) ∨
      ∃ i, d.d_cont t = some i ∧ (d.throttle now t ttl tries).d_cont t = some i ∧
        i.ttd ≤ (d.entryOf now ttl tries).ttd ∧ (d.entryOf now ttl tries).count ≤ i.count := by
  unfold throttle
  cases hlisted : d.d_cont t with
  | none =>
    refine .inl ⟨Function.update_self _ _ _, fun i hi => ?_⟩
    cases hi
  | some i =>
    dsimp only
    by_cases hreplaced : i.ttd > (d.entryOf now ttl tries).ttd ∨ i.count < (d.entryOf now ttl tries).count
    · rw [if_pos hreplaced]
      refine .inl ⟨Function.update_self _ _ _, fun i' hi' => ?_⟩
      obtain rfl := some.inj hi'
      exact hreplaced
    · rw [if_neg hreplaced]
      exact .inr ⟨i, rfl, hlisted, by omega, by omega⟩

/-- `throttle` keeps the table in step with the restrictions. -/
theorem throttle_stands {ttl tries : UInt32} (hinv : TableInv s) (hle : s.clock ≤ now)
    (hok : OneEntryDoes s (.throttle now t ttl tries)) :
    TableInv (step s (.throttle now t ttl tries)) := by
  obtain ⟨hfits, hlisted⟩ := hok
  have hcount := entryOf_count s.table now ttl hfits
  intro t'
  change Stands now (⟨t, (s.table.entryOf now ttl tries).ttd, (s.table.allowance tries).toNat⟩ ::
    s.restrictions) t' ((s.table.throttle now t ttl tries).d_cont t')
  have hbefore := (hinv t').mono hle
  rw [← hcount]
  by_cases ht : t' = t
  · subst ht
    rcases throttle_d_cont_self s.table ttl tries with ⟨hnew, hwhy⟩ | ⟨i, hi, hold, -, hmore⟩
    · rw [hnew]
      refine ⟨⟨_, mem_cons_self, rfl, rfl, rfl⟩, fun r hr hrt => ?_⟩
      rcases mem_cons.mp hr with rfl | hr
      · exact .inr ⟨Int.le_refl _, Int.le_refl _⟩
      · cases hi : s.table.d_cont t' with
        | none =>
          rw [hi] at hbefore
          exact .inl (hbefore r hr hrt)
        | some i =>
          rw [hi] at hbefore
          obtain ⟨hends, -⟩ := hlisted i hi
          -- it does not end earlier, so it has replaced the old one because it allows more
          have hmore := (hwhy i hi).resolve_left (Int.not_lt.mpr hends)
          exact (hbefore.2 r hr hrt).imp_right fun hle => ⟨by omega, by omega⟩
    · rw [hold]
      rw [hi] at hbefore
      obtain ⟨⟨r₀, hr₀, hsame⟩, hall⟩ := hbefore
      refine ⟨⟨r₀, mem_cons_of_mem _ hr₀, hsame⟩, fun r hr hrt => ?_⟩
      rcases mem_cons.mp hr with rfl | hr
      · obtain ⟨hends, hwhy⟩ := hlisted i hi
        exact .inr ⟨by dsimp only; omega, hmore⟩
      · exact hall r hr hrt
  · rw [throttle_d_cont_of_ne s.table ttl tries ht]
    exact hbefore.cons_of_ne fun h => ht h.symm

/-- **Every call keeps the table in step with the restrictions.** -/
theorem tableInv_step (o : Op Thing) (hinv : TableInv s) (hok : InOrder s o ∧ OneEntryDoes s o) :
    TableInv (step s o) := by
  obtain ⟨horder, hone⟩ := hok
  cases o with
  | throttle now t ttl tries => exact throttle_stands hinv horder hone
  | shouldThrottle now t =>
    have hclean := Stands.clean hinv horder
    intro t'
    have hcall := shouldThrottle_eq hone
    cases hlisted : (s.table.clean now).d_cont t with
    | none =>
      rw [hlisted] at hcall
      change Stands now (if (s.table.shouldThrottle now t).2 then s.restrictions.map (Restriction.use t)
        else s.restrictions) t' ((s.table.shouldThrottle now t).1.d_cont t')
      rw [hcall]
      exact hclean t'
    | some e =>
      rw [hlisted] at hcall
      change Stands now (if (s.table.shouldThrottle now t).2 then s.restrictions.map (Restriction.use t)
        else s.restrictions) t' ((s.table.shouldThrottle now t).1.d_cont t')
      rw [hcall]
      dsimp only
      by_cases ht : t' = t
      · subst ht
        rw [Function.update_self]
        exact (hlisted ▸ hclean t').use
      · rw [Function.update_of_ne ht]
        exact (hclean t').use_of_ne ht

/-- **Every call does what it is meant to.** -/
theorem right_step (o : Op Thing) (hinv : TableInv s) (hok : InOrder s o ∧ OneEntryDoes s o) :
    Right s o := by
  obtain ⟨horder, hone⟩ := hok
  cases o with
  | shouldThrottle now t =>
    change (s.table.shouldThrottle now t).2 = true ↔ InForce now t s.restrictions
    have horder : s.clock ≤ now := horder
    rw [(Stands.clean hinv horder t).inForce_iff, shouldThrottle_eq hone]
    cases hlisted : (s.table.clean now).d_cont t with
    | none =>
      refine ⟨fun h => absurd h Bool.false_ne_true, ?_⟩
      rintro ⟨e, he, -⟩
      cases he
    | some e => exact ⟨fun _ => ⟨e, rfl, hone e hlisted⟩, fun _ => rfl⟩
  | throttle now t ttl tries =>
    intro i hi
    obtain ⟨hends, -⟩ := hone.2 i hi
    rcases throttle_d_cont_self s.table ttl tries with ⟨hnew, hwhy⟩ | ⟨i', hi', hold, -, -⟩
    · refine ⟨_, hnew, hends, ?_⟩
      exact Int.le_of_lt ((hwhy i hi).resolve_left (Int.not_lt.mpr hends))
    · obtain rfl := some.inj (hi.symm.trans hi')
      exact ⟨i, hold, Int.le_refl _, Int.le_refl _⟩

end Steps

/-! ### Whole runs -/

/-- A new table. -/
def start (Thing : Type) (now : Int) : Watched Thing where
  table := { d_last_clean := now }
  clock := now

theorem tableInv_start (now : Int) : TableInv (start Thing now) := by
  intro t r hr
  exact absurd hr not_mem_nil

/-- **Throttling.** In every run at non-decreasing times in which one entry can stand for all restrictions
of a thing, each `shouldThrottle` says yes exactly when a restriction is in force, and no `throttle` loosens
one. -/
theorem throttles_right [DecidableEq Thing] (now : Int) (before after : List (Op Thing)) (o : Op Thing)
    (hrun : Guarded step (fun s o => InOrder s o ∧ OneEntryDoes s o) (start Thing now)
      (before ++ o :: after)) :
    Right (run step (start Thing now) before) o := by
  have hstep : ∀ (s : Watched Thing) o, TableInv s → InOrder s o ∧ OneEntryDoes s o → TableInv (step s o) :=
    fun _ o => tableInv_step o
  exact run_forall_step hstep (fun _ o => right_step o) (tableInv_start now) hrun

/-- A thing that is refused twice and then left alone. -/
theorem throttle_in_force :
    Right (run step (start Nat 0) [.throttle 10 7 60 3, .shouldThrottle 20 7]) (.shouldThrottle 30 7) := by
  refine throttles_right 0 _ [] _ ⟨⟨by decide, by decide, ?_⟩, ⟨by decide, ?_⟩, ⟨by decide, ?_⟩, trivial⟩
  · intro e he
    cases he
  · rintro e he
    obtain rfl := some.inj he
    decide
  · rintro e he
    obtain rfl := some.inj he
    decide

/-- **What has run out is refused once more**: throttled until 70, the thing is asked about at 71. -/
theorem expired_still_refused :
    ¬Right (run step (start Nat 0) [.throttle 10 7 60 3]) (.shouldThrottle 71 7) := by
  intro h
  obtain ⟨r, hr, -, hends, -⟩ := h.mp (by decide)
  obtain rfl := mem_singleton.mp hr
  exact absurd hends (by decide)

end Throttle

end PowerDNS
