import PowerDNS.Splitpipe.Joining
import PowerDNS.Splitpipe.SplitVolumes

/-!
# Splitting and joining

`split_join_iff` is about splitpipe with any outside that goes on, and joinpipe with any pieces of reads and writes:
what joinpipe makes of the volumes is the input, exactly when the input is not empty, no stretch of data is begun
when three octets are left in the volume, and no more than 65536 volumes are begun. It is for volumes with room for
an octet of data, and labels whose size fits in the 16 bits of a stretch.
-/

namespace PowerDNS

open ScheduledRun Splitpipe Bool List

/-- **The volumes hold the input**: joinpipe gets it back from them, none is larger than a volume may be, and the
session ends in the last of them only. -/
structure RoundTrip (P : SplitParameters) (input : Octets) (volumes : List Octets) : Prop where
  joined : ∀ io, ∃ n, Joinpipe.main io n volumes = .success input
  sized : ∀ v ∈ volumes, v.length ≤ P.volumeSize.toNat
  sessionEnd : ∃ init last, volumes = init ++ [last] ∧ StretchType.SessionEOF.code ∈ stretchTypes last ∧
    ∀ v ∈ init, StretchType.SessionEOF.code ∉ stretchTypes v

namespace Splitpipe

variable {P : SplitParameters} {input : Octets} {s : Splitpipe}

theorem length_volumeOctets (S : SplitSession) (n : Nat) (before : Octets) (ds : List Octets) (eof : StretchType) :
    (volumeOctets S n before ds eof).length = S.perVolumeLength + (dataStretches ds).length + 22 := by
  rw [volumeOctets, volumeEnd, length_append, length_append, S.length_perVolumeStretches]
  rfl

/-- What the volumes of a run that has ended are worth. -/
theorem roundTrip_iff_of_finished {empty : Prop} (hroomy : P.Roomy) (hlabel : P.label.length < 65536)
    (hinput : input ≠ []) (h : Finished P input empty s) :
    RoundTrip P input s.volumes ↔ ¬ empty ∧ s.volumeNumber ≤ 65536 := by
  obtain ⟨-, ⟨hnil, -⟩ | ⟨L, last, hvolumes, hdata, hsmall, hfits, hnumber, hempty⟩⟩ := h
  · exact absurd hnil hinput
  rw [hvolumes, hnumber, ← hempty]
  constructor
  · rintro ⟨hjoined, -, -⟩
    obtain ⟨hsome, hlength, -⟩ := (Joinpipe.main_session hlabel hsmall (fun _ => ⟨[], [], []⟩) input).mp (hjoined _)
    exact ⟨hsome, hlength⟩
  · rintro ⟨hsome, hlength⟩
    have hcapacity := capacity_eq hroomy
    unfold SplitParameters.Roomy at hroomy
    have hsized (n : Nat) (before : Octets) {ds : List Octets} (hds : ds ∈ L ++ [last]) (eof : StretchType) :
        (volumeOctets P.toSplitSession n before ds eof).length ≤ P.volumeSize.toNat := by
      have hfit := hfits ds hds
      rw [length_volumeOctets]
      omega
    refine ⟨fun io => (Joinpipe.main_session hlabel hsmall io input).mpr ⟨hsome, hlength, hdata.symm⟩, ?_,
      closedVolumes P.toSplitSession 0 [] L, _, rfl, ?_, ?_⟩
    · intro v hv
      rcases mem_append.mp hv with hclosed | hlast
      · obtain ⟨n, before, ds, hds, rfl⟩ := Joinpipe.mem_closedVolumes hclosed
        exact hsized n before (mem_append_left _ hds) _
      · rw [mem_singleton.mp hlast]
        exact hsized _ _ (mem_append_right _ (mem_singleton_self _)) _
    · exact (sessionEOF_mem_iff _ hlabel (hsmall last (mem_append_right _ (mem_singleton_self _)))).mpr rfl
    · intro v hv
      obtain ⟨n, before, ds, hds, rfl⟩ := Joinpipe.mem_closedVolumes hv
      rw [sessionEOF_mem_iff _ hlabel (hsmall ds (mem_append_left _ hds))]
      exact StretchType.noConfusion

/-! ### Runs -/

variable (P input)

/-- The state behind so many turns. -/
def after (turns : Nat → SplitTurn) (n : Nat) : Splitpipe := run (turn P) turns (start P input) n

/-- One of the first stretches of data was begun in the corner of a volume. -/
def CorneredBefore (turns : Nat → SplitTurn) (n : Nat) : Prop :=
  ∃ m < n, ∃ head ∈ (after P input turns m).heads P (turns m), Cornered P head

variable {P input}

theorem corneredBefore_succ (P : SplitParameters) (input : Octets) (turns : Nat → SplitTurn) (n : Nat) :
    CorneredBefore P input turns (n + 1) ↔
      CorneredBefore P input turns n ∨ ∃ head ∈ (after P input turns n).heads P (turns n), Cornered P head := by
  constructor
  · rintro ⟨m, hm, hhead⟩
    rcases Nat.lt_succ_iff_lt_or_eq.mp hm with hlt | rfl
    · exact .inl ⟨m, hlt, hhead⟩
    · exact .inr hhead
  · rintro (⟨m, hm, hhead⟩ | hhead)
    · exact ⟨m, Nat.lt_succ_of_lt hm, hhead⟩
    · exact ⟨n, Nat.lt_succ_self n, hhead⟩

/-- Nothing happens behind the end. -/
theorem turn_ended (h : s.exit = some true) (t : SplitTurn) : s.turn P t = s ∧ s.heads P t = [] := by
  rw [turn, heads, h]
  exact ⟨rfl, rfl⟩

/-- **The invariant of a run.** -/
theorem run_holds (input : Octets) (hroomy : P.Roomy) (turns : Nat → SplitTurn) (n : Nat) :
    Holds P input (CorneredBefore P input turns n) (after P input turns n) ∨
      Finished P input (CorneredBefore P input turns n) (after P input turns n) := by
  induction n with
  | zero =>
    refine .inl ⟨[], [], [], laid_start P input, ?_⟩
    exact ⟨(fun h => nomatch h), fun ⟨_, h, _⟩ => absurd h (Nat.not_lt_zero _)⟩
  | succ n ih =>
    have hdirty := corneredBefore_succ P input turns n
    change Holds P input _ ((after P input turns n).turn P (turns n)) ∨
      Finished P input _ ((after P input turns n).turn P (turns n))
    rcases ih with hholds | hfinished
    · obtain ⟨hnext | hnext, -⟩ := turn_spec hroomy hholds (turns n)
      · exact .inl (hnext.congr hdirty.symm)
      · exact .inr (hnext.congr hdirty.symm)
    · obtain ⟨hsame, hnone⟩ := turn_ended (P := P) hfinished.1 (turns n)
      rw [hsame]
      refine .inr (hfinished.congr ?_)
      rw [hdirty, hnone]
      exact (or_iff_left fun ⟨_, hmem, _⟩ => nomatch hmem).symm

/-! ### The number of volumes -/

/-- The inner loop begins no volume. -/
theorem volumeNumber_writeOnce (t : SplitTurn) (bytesRead : Nat) (a : Option Nat) (p p' : Nat × Splitpipe)
    (h : writeOnce P t bytesRead a p = .again p' ∨ writeOnce P t bytesRead a p = .leave p') :
    p'.2.volumeNumber = p.2.volumeNumber := by
  obtain ⟨total, s⟩ := p
  unfold writeOnce at h
  dsimp only at h
  split at h
  · rcases h with h | h
    all_goals cases h
    rfl
  split at h
  · rcases h with h | h
    all_goals cases h
    rfl
  cases a with
  | none =>
    rcases h with h | h
    all_goals cases h
    rfl
  | some n =>
    dsimp only at h
    split at h
    all_goals
      rcases h with h | h
      all_goals cases h
      rfl

theorem volumeNumber_writeData (t : SplitTurn) (bytesRead : Nat) (s : Splitpipe) :
    (s.writeData P t bytesRead).1.volumeNumber = s.volumeNumber := by
  have hsame (l : List Nat) (p : Nat × Splitpipe) :
      (loop (writeOnce P t bytesRead) l p).1.2.volumeNumber = p.2.volumeNumber := by
    induction l generalizing p with
    | nil =>
      unfold loop
      cases hbody : writeOnce P t bytesRead none p with
      | again p' => exact volumeNumber_writeOnce t bytesRead none p p' (.inl hbody)
      | leave p' => exact volumeNumber_writeOnce t bytesRead none p p' (.inr hbody)
    | cons n l ih =>
      unfold loop
      cases hbody : writeOnce P t bytesRead (some n) p with
      | again p' => exact (ih p').trans (volumeNumber_writeOnce t bytesRead _ p p' (.inl hbody))
      | leave p' => exact volumeNumber_writeOnce t bytesRead _ p p' (.inr hbody)
  exact hsame t.writes (0, s)

theorem volumeNumber_openVolume_le (t : SplitTurn) (s : Splitpipe) :
    s.volumeNumber ≤ (openVolume P t s).volumeNumber :=
  Nat.le_succ _

theorem volumeNumber_beforeWriting_le (t : SplitTurn) (s : Splitpipe) :
    s.volumeNumber ≤ (s.beforeWriting P t).2.2.volumeNumber := by
  have hprepare : s.volumeNumber ≤ (s.prepareVolume P t).volumeNumber := by
    unfold prepareVolume
    split
    · split
      · exact Nat.le_refl _
      · exact volumeNumber_openVolume_le t s
    · exact Nat.le_refl _
  have hreap (s : Splitpipe) : (s.reap t).volumeNumber = s.volumeNumber := by
    unfold reap
    split <;> rfl
  have henter (s : Splitpipe) : s.volumeNumber ≤ (s.userEnters P t).volumeNumber := by
    unfold userEnters
    split
    · exact volumeNumber_openVolume_le t s
    · exact Nat.le_refl _
  have hread (n : Nat) (s : Splitpipe) : (s.readInput n).2.volumeNumber = s.volumeNumber := by
    unfold readInput
    dsimp only
    split
    · rfl
    · split <;> rfl
  have hfront := ((hprepare.trans_eq (hreap _).symm).trans (henter _))
  unfold beforeWriting
  cases t.readable with
  | none => exact hfront
  | some n =>
    dsimp only
    split
    · exact hfront.trans_eq (hread n _).symm
    · exact hfront

theorem volumeNumber_turn_le (t : SplitTurn) (s : Splitpipe) : s.volumeNumber ≤ (s.turn P t).volumeNumber := by
  have hfinish (s : Splitpipe) : (s.finish t).volumeNumber = s.volumeNumber := by
    unfold finish
    split <;> rfl
  have hafter (writing : Bool) (bytesRead : Nat) (s : Splitpipe) :
      (afterReading P t (writing, bytesRead, s)).volumeNumber = s.volumeNumber := by
    unfold afterReading
    dsimp only
    split
    · rfl
    · cases writing with
      | true =>
        rw [if_pos rfl]
        split
        · exact (hfinish _).trans (volumeNumber_writeData t bytesRead s)
        · exact volumeNumber_writeData t bytesRead s
      | false =>
        rw [if_neg Bool.false_ne_true]
        split
        · exact hfinish s
        · rfl
  unfold turn
  split
  · exact Nat.le_refl _
  · exact (volumeNumber_beforeWriting_le t s).trans_eq (hafter _ _ _).symm

/-- More volumes are only ever begun. -/
theorem volumeNumber_after_le (P : SplitParameters) (input : Octets) (turns : Nat → SplitTurn) (n k : Nat) :
    (after P input turns n).volumeNumber ≤ (after P input turns (n + k)).volumeNumber := by
  induction k with
  | zero => exact Nat.le_refl _
  | succ k ih => exact ih.trans (volumeNumber_turn_le (turns (n + k)) _)

/-- Behind the end the state stays as it is. -/
theorem after_ended {turns : Nat → SplitTurn} {n : Nat} (h : (after P input turns n).exit = some true) (k : Nat) :
    after P input turns (n + k) = after P input turns n := by
  induction k with
  | zero => rfl
  | succ k ih =>
    change (after P input turns (n + k)).turn P (turns (n + k)) = _
    rw [ih]
    exact (turn_ended h _).1

/-! ### The empty input -/

/-- When there is nothing to be read, no volume is begun. -/
theorem turn_nothing (t : SplitTurn) :
    (start P []).turn P t = start P [] ∨
      (start P []).turn P t = { start P [] with inputEof := true, exit := some true } := by
  have hnone : (start P []).rb.available = 0 := if_pos rfl
  have hprepared : ((start P []).prepareVolume P t).reap t = start P [] := by
    refine prepared_eq ?_ (fun h => OutputStatus.noConfusion h) t
    rintro ⟨-, -, heof | hhalf⟩
    · exact Bool.false_ne_true heof
    · rw [hnone] at hhalf
      exact absurd hhalf (Nat.not_lt_zero _)
  have hread (n : Nat) : (start P []).readInput n = (0, { start P [] with inputEof := true }) := by
    rw [readInput, if_pos]
    exact Nat.le_zero.mp ((Nat.min_le_right _ _).trans (Nat.min_le_right _ _))
  have hgoing : (start P []).exit.isSome = false := rfl
  unfold turn
  rw [hgoing, if_neg Bool.false_ne_true]
  unfold beforeWriting
  dsimp only
  rw [hprepared, userEnters_eq rfl, hnone]
  cases t.readable with
  | none => exact Or.inl rfl
  | some n =>
    dsimp only
    split
    · rw [hread]
      exact Or.inr rfl
    · exact Or.inl rfl

theorem after_nothing (turns : Nat → SplitTurn) (n : Nat) : (after P [] turns n).volumes = [] := by
  have hall : after P [] turns n = start P [] ∨
      after P [] turns n = { start P [] with inputEof := true, exit := some true } := by
    induction n with
    | zero => exact .inl rfl
    | succ n ih =>
      change (after P [] turns n).turn P (turns n) = _ ∨ (after P [] turns n).turn P (turns n) = _
      rcases ih with hsame | hended
      · rw [hsame]
        exact turn_nothing (turns n)
      · rw [hended]
        exact .inr (turn_ended rfl _).1
  rcases hall with h | h
  all_goals
    rw [h]
    rfl

/-! ### The whole run -/

/-- **Splitting and joining.** -/
theorem split_join_iff {turns : Nat → SplitTurn} (hfair : Fair Awaited.comes turns) (hroomy : P.Roomy)
    (hlabel : P.label.length < 65536) :
    (∃ n, (after P input turns n).exit = some true ∧ RoundTrip P input (after P input turns n).volumes) ↔
      input ≠ [] ∧ (∀ n, ∀ head ∈ (after P input turns n).heads P (turns n), ¬ Cornered P head) ∧
        ∀ n, (after P input turns n).volumeNumber ≤ 65536 := by
  have hholds (n : Nat) := run_holds input hroomy turns n
  obtain ⟨n, hn⟩ : ∃ n, (after P input turns n).exit = some true := by
    have hstart : (∃ empty, Holds P input empty (start P input)) ∨ (start P input).exit = some true :=
      .inl ⟨False, [], [], [], laid_start P input, iff_of_false (fun h => nomatch h) id⟩
    refine @exists_done Splitpipe SplitTurn Awaited (turn P) turns (start P input)
      (fun s => (∃ empty, Holds P input empty s) ∨ s.exit = some true) (fun s => s.exit = some true) (measure P)
      Awaited.comes hstart ?_ ?_ ?_ hfair
    · rintro t s (⟨empty, h⟩ | h)
      · obtain ⟨hnext | hnext, -⟩ := turn_spec hroomy h t
        · exact .inl ⟨_, hnext⟩
        · exact .inr hnext.1
      · rw [(turn_ended h t).1]
        exact .inr h
    · rintro t s (⟨empty, h⟩ | h)
      · exact (turn_spec hroomy h t).2
      · exact .inl (turn_ended h t).1
    · rintro s (⟨empty, L, ds, part, h, -⟩ | h) hgoing
      · obtain ⟨awaited, hless⟩ := exists_awaited hroomy h
        refine ⟨awaited, fun t ht hsame => ?_⟩
        have hlower := hless t ht
        rw [hsame] at hlower
        exact Nat.lt_irrefl _ hlower
      · exact absurd h hgoing
  by_cases hinput : input = []
  · subst hinput
    refine iff_of_false ?_ fun h => h.1 rfl
    rintro ⟨n, -, -, -, ⟨init, last, hvolumes, -⟩⟩
    rw [after_nothing] at hvolumes
    exact absurd hvolumes.symm (append_ne_nil_of_right_ne_nil _ (cons_ne_nil _ _))
  have hfinished : Finished P input (CorneredBefore P input turns n) (after P input turns n) := by
    rcases hholds n with ⟨L, ds, part, h, -⟩ | h
    · rw [h.exit] at hn
      cases hn
    · exact h
  have hworth := roundTrip_iff_of_finished hroomy hlabel hinput hfinished
  constructor
  · rintro ⟨m, hm, hround⟩
    -- The run has ended but once.
    have hsame : after P input turns m = after P input turns n := by
      rw [← after_ended hm n, Nat.add_comm, after_ended hn m]
    rw [hsame] at hround
    obtain ⟨hclean, hnumber⟩ := hworth.mp hround
    refine ⟨hinput, fun k head hhead hcornered => ?_, fun k => ?_⟩
    · rcases Nat.lt_or_ge k n with hlt | hle
      · exact hclean ⟨k, hlt, head, hhead, hcornered⟩
      · obtain ⟨j, rfl⟩ := Nat.exists_eq_add_of_le hle
        rw [after_ended hn j, (turn_ended hn _).2] at hhead
        cases hhead
    · have hlater := volumeNumber_after_le P input turns k n
      rw [Nat.add_comm, after_ended hn k] at hlater
      exact hlater.trans hnumber
  · rintro ⟨-, hnone, hnumber⟩
    refine ⟨n, hn, hworth.mpr ⟨?_, hnumber n⟩⟩
    rintro ⟨m, -, head, hhead, hcornered⟩
    exact hnone m head hhead hcornered

/-! ### Two runs -/

/-- Volumes of three kilobytes, and a buffer of one. -/
def threeKilobytes : SplitParameters where
  d_uuid := List.replicate 16 7
  label := []
  now _ := 0
  length_uuid := rfl
  bufferSize := 1024
  volumeSize := 3072
  noPrompt := true
  bufferSize_pos := by decide
  volumeSize_pos := by decide

/-- The input comes in pieces of 987 octets, the second one when the first has been written. -/
def inTwoPieces (n : Nat) : SplitTurn where
  exited := true
  enter := true
  readable := if n = 1 ∨ n = 2 then none else some 986
  writable := true
  writes := [1023, 1023]
  pieces _ := []

theorem fair_inTwoPieces : Fair Awaited.comes inTwoPieces := by
  intro kind n
  refine ⟨n + 3, Nat.le_add_right n 3, ?_⟩
  cases kind with
  | exited => exact rfl
  | enter => exact rfl
  | readable =>
    rfl
  | writable => exact ⟨rfl, cons_ne_nil _ _⟩

theorem roomy_threeKilobytes : threeKilobytes.Roomy := show 2048 + 31 + 4 ≤ 3072 by decide

/-- An input that fits in a volume. -/
theorem one_volume_joined :
    ∃ n, (after threeKilobytes [1, 2, 3] inTwoPieces n).exit = some true ∧
      RoundTrip threeKilobytes [1, 2, 3] (after threeKilobytes [1, 2, 3] inTwoPieces n).volumes := by
  have hend : (after threeKilobytes [1, 2, 3] inTwoPieces 8).exit = some true := by decide +kernel
  refine (split_join_iff fair_inTwoPieces roomy_threeKilobytes (by decide)).mpr ⟨by decide, fun n => ?_, fun n => ?_⟩
  · rcases Nat.lt_or_ge n 8 with hlt | hle
    · exact (by decide +kernel : ∀ n < 8, ∀ head ∈
        (after threeKilobytes [1, 2, 3] inTwoPieces n).heads threeKilobytes (inTwoPieces n),
          ¬ Cornered threeKilobytes head) n hlt
    · obtain ⟨k, rfl⟩ := Nat.exists_eq_add_of_le hle
      rw [after_ended hend k, (turn_ended hend _).2]
      exact fun _ h => nomatch h
  · have hlater := volumeNumber_after_le threeKilobytes [1, 2, 3] inTwoPieces n 8
    rw [Nat.add_comm, after_ended hend n] at hlater
    exact hlater.trans (by decide +kernel)

/-- The stretch with the first 987 octets leaves three in the volume: an empty stretch follows it, and joinpipe takes
that for an end of its output. -/
theorem lost_in_the_corner :
    Fair Awaited.comes inTwoPieces ∧
      ¬ ∃ n, (after threeKilobytes (List.replicate 988 5) inTwoPieces n).exit = some true ∧
        RoundTrip threeKilobytes (List.replicate 988 5)
          (after threeKilobytes (List.replicate 988 5) inTwoPieces n).volumes := by
  refine ⟨fair_inTwoPieces, ?_⟩
  rintro ⟨n, hn, hround⟩
  have hend : (after threeKilobytes (List.replicate 988 5) inTwoPieces 9).exit = some true := by decide +kernel
  have hcorner : ∃ head ∈ (after threeKilobytes (List.replicate 988 5) inTwoPieces 4).heads threeKilobytes
      (inTwoPieces 4), Cornered threeKilobytes head := by decide +kernel
  have hsame : after threeKilobytes (List.replicate 988 5) inTwoPieces n =
      after threeKilobytes (List.replicate 988 5) inTwoPieces 9 := by
    rw [← after_ended hn 9, Nat.add_comm, after_ended hend n]
  have hfinished : Finished threeKilobytes (List.replicate 988 5)
      (CorneredBefore threeKilobytes (List.replicate 988 5) inTwoPieces 9)
      (after threeKilobytes (List.replicate 988 5) inTwoPieces 9) := by
    rcases run_holds _ roomy_threeKilobytes inTwoPieces 9 with ⟨L, ds, part, h, -⟩ | h
    · rw [h.exit] at hend
      cases hend
    · exact h
  rw [hsame] at hround
  have hclean := (roundTrip_iff_of_finished roomy_threeKilobytes (by decide) (by decide) hfinished).mp hround
  exact hclean.1 ⟨4, by decide, hcorner⟩

end Splitpipe

end PowerDNS
