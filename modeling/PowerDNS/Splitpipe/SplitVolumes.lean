import PowerDNS.Splitpipe.Splitting

/-!
# The volumes that splitpipe writes

`Laid` is the invariant of the main loop: what has been written are volumes as they should be, the last of which may
end within a stretch; the data in them, what is in the buffer, and what is still to be read are the input. A turn
keeps it or ends the run (`turn_spec`), and leaves the state as it is or brings the `measure` down. As long as the run
goes on there is something that brings the measure down when it comes from outside (`exists_awaited`).

All this is for volumes with room for an octet of data behind what they say about the session. A stretch of data is
never empty, unless it is begun when exactly three octets are left in the volume (`Cornered`).
-/

namespace PowerDNS

open ScheduledRun List

/-- How much of a volume there is for what stands in front of its last stretches. -/
def SplitParameters.capacity (P : SplitParameters) : Nat := (P.volumeSize - 2048).toNat

/-- There is room in a volume for a stretch with an octet of data. -/
def SplitParameters.Roomy (P : SplitParameters) : Prop := 2048 + P.perVolumeLength + 4 ≤ P.volumeSize.toNat

namespace Splitpipe

/-- A stretch of which some octets have been written, and others not yet. -/
def partialStretch (part : Octets) (left : Nat) : Octets :=
  if left = 0 then [] else stretchHeader .Data (part.length + left) ++ part

/-- A volume is being written: its stretches so far. -/
structure Writing (P : SplitParameters) (L : List (List Octets)) (ds : List Octets) (part : Octets) (s : Splitpipe) :
    Prop where
  asked : s.waitingForUser = false
  volumeNumber : s.volumeNumber = L.length + 1
  volume : s.volume = P.perVolumeStretches L.length ++ dataStretches ds ++ partialStretch part s.leftInStretch
  amount : s.d_amountOutputVolume.toNat = s.volume.length
  room : s.volume.length + s.leftInStretch ≤ P.capacity

/-- No volume is being written; another one was only ended because there was more to write. -/
structure Idle (L : List (List Octets)) (ds : List Octets) (part : Octets) (s : Splitpipe) : Prop where
  volumeNumber : s.volumeNumber = L.length
  volume : s.volume = []
  ds : ds = []
  part : part = []
  leftInStretch : s.leftInStretch = 0
  pending : L ≠ [] → s.rb.contents ≠ []

/-- **What has been written**: the stretches of data of the volumes that have been ended, and those of the volume
that is being written. -/
structure Laid (P : SplitParameters) (input : Octets) (L : List (List Octets)) (ds : List Octets) (part : Octets)
    (s : Splitpipe) : Prop where
  exit : s.exit = none
  wellFormed : s.rb.WellFormed
  publicSize : s.rb.d_publicSize = P.bufferSize
  input : L.flatten.flatten ++ ds.flatten ++ part ++ s.rb.contents ++ s.unread = input
  md5 : s.md5.HasFed (L.flatten.flatten ++ ds.flatten ++ part)
  volumes : s.volumes = closedVolumes P.toSplitSession 0 [] L
  stretch : part.length + s.leftInStretch < 65536
  buffered : s.leftInStretch ≤ s.rb.contents.length
  complete : s.leftInStretch = 0 → part = []
  small : ∀ ds' ∈ L ++ [ds], ∀ d ∈ ds', d.length < 65536
  fits : ∀ ds' ∈ L, P.perVolumeLength + (dataStretches ds').length ≤ P.capacity
  eof : s.inputEof = true → s.unread = []
  asked : s.waitingForUser = true → s.outputStatus = .Dead
  working : s.outputStatus = .Working → Writing P L ds part s
  idle : s.outputStatus ≠ .Working → Idle L ds part s

/-- The next stretch of data will be empty: exactly the three octets of its header are left. -/
def Cornered (P : SplitParameters) (s : Splitpipe) : Prop := s.leftInStretch = 0 ∧ s.leftInVolume P = 3

instance (P : SplitParameters) (s : Splitpipe) : Decidable (Cornered P s) :=
  inferInstanceAs (Decidable (s.leftInStretch = 0 ∧ s.leftInVolume P = 3))

/-- How far the writing of a volume has come. -/
def phase (P : SplitParameters) (s : Splitpipe) : Nat :=
  match s.outputStatus with
  | .Working =>
    if s.leftInStretch ≠ 0 then 0
    else if 3 < s.leftInVolume P then 1
    else if s.leftInVolume P = 3 then 6
    else 5
  | .Dying => 4
  | .Dead => if s.waitingForUser then 2 else 3

/-- The read position of the buffer is at the end, and not yet at the beginning again. -/
def atEnd (rb : RingBuffer) : Nat := if rb.d_rpos = rb.d_vector.length then 1 else 0

/-- What is still to be done. -/
def measure (P : SplitParameters) (s : Splitpipe) : Nat :=
  if s.exit.isSome then 0
  else 1 + 32 * (2 * s.unread.length + s.rb.contents.length) + (if s.inputEof then 0 else 16) + 2 * s.phase P +
    atEnd s.rb

/-- The state is the same, or less is to be done. -/
def Goes (P : SplitParameters) (s s' : Splitpipe) : Prop := s' = s ∨ s'.measure P < s.measure P

section Goes

variable {P : SplitParameters} {s s' s'' : Splitpipe}

theorem Goes.refl (s : Splitpipe) : Goes P s s := .inl rfl

theorem Goes.trans (h : Goes P s s') (h' : Goes P s' s'') : Goes P s s'' := by
  rcases h with rfl | hless
  · exact h'
  · rcases h' with rfl | hlesser
    · exact .inr hless
    · exact .inr (hlesser.trans hless)

theorem Goes.trans_lt (h : Goes P s s') (h' : s''.measure P < s'.measure P) : s''.measure P < s.measure P := by
  rcases h with rfl | hless
  · exact h'
  · exact h'.trans hless

theorem Goes.lt_trans (h : s'.measure P < s.measure P) (h' : Goes P s' s'') : s''.measure P < s.measure P := by
  rcases h' with rfl | hless
  · exact h
  · exact hless.trans h

end Goes

variable {P : SplitParameters} {input : Octets} {L : List (List Octets)} {ds : List Octets} {part : Octets}
  {s s' : Splitpipe}

theorem capacity_eq (hroomy : P.Roomy) : P.capacity = P.volumeSize.toNat - 2048 := by
  unfold SplitParameters.Roomy at hroomy
  unfold SplitParameters.capacity
  rw [UInt64.toNat_sub_of_le]
  · rfl
  · rw [UInt64.le_iff_toNat_le]
    exact le_trans (by decide) (le_trans (Nat.le_add_right 2048 (P.perVolumeLength + 4)) (by omega))

/-- In a volume that is being written, nothing wraps. -/
theorem leftInVolume_eq (h : Writing P L ds part s) : s.leftInVolume P = P.capacity - s.volume.length := by
  have hle : s.d_amountOutputVolume.toNat ≤ (P.volumeSize - 2048).toNat := by
    rw [h.amount]
    exact le_trans (Nat.le_add_right _ _) h.room
  unfold leftInVolume
  rw [UInt64.toNat_sub_of_le _ _ (UInt64.le_iff_toNat_le.mpr hle), h.amount]
  rfl

theorem laid_start (P : SplitParameters) (input : Octets) : Laid P input [] [] [] (start P input) where
  exit := rfl
  wellFormed := RingBuffer.wellFormed_ofSize _
  publicSize := rfl
  input := rfl
  md5 := fed_nil
  volumes := rfl
  stretch := show 0 < 65536 by decide
  buffered := Nat.le_refl _
  complete _ := rfl
  small ds' hds' d hd := by
    rw [mem_singleton.mp hds'] at hd
    cases hd
  fits _ h := nomatch h
  eof h := nomatch h
  asked h := nomatch h
  working h := nomatch h
  idle _ := ⟨rfl, rfl, rfl, rfl, rfl, fun h => absurd rfl h⟩

theorem atEnd_le (rb : RingBuffer) : atEnd rb ≤ 1 := by
  unfold atEnd
  split <;> decide

theorem measure_eq (hexit : s.exit = none) :
    s.measure P = 1 + 32 * (2 * s.unread.length + s.rb.contents.length) + (if s.inputEof then 0 else 16) +
      2 * s.phase P + atEnd s.rb := by
  rw [measure, hexit, Option.isSome_none, if_neg Bool.false_ne_true]

theorem phase_dead (h : s.outputStatus = .Dead) : s.phase P = if s.waitingForUser then 2 else 3 := by
  rw [phase, h]

theorem phase_dying (h : s.outputStatus = .Dying) : s.phase P = 4 := by rw [phase, h]

/-- When only the phase changes. -/
theorem measure_lt_of_phase (hexit : s.exit = none) (hrb : s'.rb = s.rb) (hunread : s'.unread = s.unread)
    (heof : s'.inputEof = s.inputEof) (hphase : s'.phase P < s.phase P) : s'.measure P < s.measure P := by
  unfold measure
  rw [hexit, hrb, hunread, heof, Option.isSome_none, if_neg Bool.false_ne_true]
  split
  · exact Nat.lt_of_lt_of_le Nat.one_pos (by omega)
  · omega

theorem openVolume_spec (hroomy : P.Roomy) (h : Laid P input L ds part s) (hdead : s.outputStatus = .Dead)
    (t : SplitTurn) :
    Laid P input L ds part (s.openVolume P t) ∧ (s.openVolume P t).measure P < s.measure P := by
  have hidle := h.idle (by rw [hdead]; exact fun h => nomatch h)
  have hcapacity := capacity_eq hroomy
  have hlength := P.length_perVolumeStretches s.volumeNumber
  unfold SplitParameters.Roomy at hroomy
  have hvolume : (s.openVolume P t).volume = P.perVolumeStretches L.length := by
    unfold openVolume output
    dsimp only
    rw [writen_eq, hidle.volume, nil_append, hidle.volumeNumber]
  have hwriting : Writing P L ds part (s.openVolume P t) := by
    refine ⟨rfl, congrArg (· + 1) hidle.volumeNumber, ?_, ?_, ?_⟩
    · rw [hvolume, hidle.ds, partialStretch,
        if_pos (show (s.openVolume P t).leftInStretch = 0 from hidle.leftInStretch), append_nil]
      exact (append_nil _).symm
    · rw [hvolume, P.length_perVolumeStretches]
      change (UInt64.ofNat (P.perVolumeStretches s.volumeNumber).length).toNat = _
      rw [hlength, UInt64.toNat_ofNat', Nat.mod_eq_of_lt]
      exact lt_of_le_of_lt (by omega) P.volumeSize.toNat_lt
    · rw [hvolume, P.length_perVolumeStretches]
      change _ + s.leftInStretch ≤ _
      rw [hidle.leftInStretch, hcapacity]
      omega
  refine ⟨{ h with asked := (fun h => nomatch h), working := fun _ => hwriting, idle := fun h => absurd rfl h }, ?_⟩
  refine measure_lt_of_phase h.exit rfl rfl rfl ?_
  have hphase : (s.openVolume P t).phase P = 1 := by
    have hleft := leftInVolume_eq hwriting
    rw [hvolume, P.length_perVolumeStretches] at hleft
    change (if s.leftInStretch ≠ 0 then 0 else _) = 1
    rw [if_neg (not_not_intro hidle.leftInStretch), if_pos (by omega)]
  rw [hphase, phase_dead hdead]
  split <;> decide

theorem prepareVolume_spec (hroomy : P.Roomy) (h : Laid P input L ds part s) (t : SplitTurn) :
    Laid P input L ds part (s.prepareVolume P t) ∧ Goes P s (s.prepareVolume P t) := by
  unfold prepareVolume
  split
  next hready =>
    obtain ⟨hwaits, hdead, -⟩ := hready
    split
    · refine ⟨{ h with asked := fun _ => hdead, working := fun hworking => ?_, idle := fun _ => ?_ }, .inr ?_⟩
      · exact absurd (hdead.symm.trans hworking) (by decide)
      · have hidle := h.idle (by rw [hdead]; decide)
        exact ⟨hidle.volumeNumber, hidle.volume, hidle.ds, hidle.part, hidle.leftInStretch, hidle.pending⟩
      · refine measure_lt_of_phase h.exit rfl rfl rfl ?_
        rw [phase_dead hdead, phase_dead (s := { s with waitingForUser := true }) hdead, hwaits]
        exact show 2 < 3 by decide
    · obtain ⟨hlaid, hless⟩ := openVolume_spec hroomy h hdead t
      exact ⟨hlaid, .inr hless⟩
  next => exact ⟨h, Goes.refl s⟩

theorem reap_spec (h : Laid P input L ds part s) (t : SplitTurn) :
    Laid P input L ds part (s.reap t) ∧ Goes P s (s.reap t) := by
  unfold reap
  split
  next hexited =>
    obtain ⟨-, hdying⟩ := hexited
    have hasked : s.waitingForUser = false := by
      rw [Bool.eq_false_iff]
      exact fun h' => absurd (hdying.symm.trans (h.asked h')) (by decide)
    refine ⟨{ h with asked := fun _ => rfl, working := (fun h => nomatch h), idle := fun _ => ?_ }, .inr ?_⟩
    · have hidle := h.idle (by rw [hdying]; decide)
      exact ⟨hidle.volumeNumber, hidle.volume, hidle.ds, hidle.part, hidle.leftInStretch, hidle.pending⟩
    · refine measure_lt_of_phase h.exit rfl rfl rfl ?_
      rw [phase_dying hdying, phase_dead (s := { s with outputStatus := .Dead }) rfl, hasked]
      decide
  next => exact ⟨h, Goes.refl s⟩

theorem userEnters_spec (hroomy : P.Roomy) (h : Laid P input L ds part s) (t : SplitTurn) :
    Laid P input L ds part (s.userEnters P t) ∧ Goes P s (s.userEnters P t) := by
  unfold userEnters
  split
  next hentered =>
    obtain ⟨hlaid, hless⟩ := openVolume_spec hroomy h (h.asked hentered.2) t
    exact ⟨hlaid, .inr hless⟩
  next => exact ⟨h, Goes.refl s⟩

/-- Reading brings in some octets, or comes to the end of the input. -/
theorem readInput_spec (h : Laid P input L ds part s) (heof : s.inputEof = false) (hroom : s.rb.room ≠ 0)
    (readable : Nat) : Laid P input L ds part (s.readInput readable).2 ∧
      (s.readInput readable).2.measure P < s.measure P ∧ (s.readInput readable).2.outputStatus = s.outputStatus ∧
        (s.rb.contents ≠ [] → (s.readInput readable).2.rb.contents ≠ []) := by
  unfold readInput
  dsimp only
  split
  next hzero =>
    have hend : s.unread = [] := eq_nil_of_length_eq_zero (by omega)
    refine ⟨{ h with eof := fun _ => hend, working := fun hworking => ?_, idle := fun hidle => ?_ }, ?_, rfl, id⟩
    · have hw := h.working hworking
      exact ⟨hw.asked, hw.volumeNumber, hw.volume, hw.amount, hw.room⟩
    · have hi := h.idle hidle
      exact ⟨hi.volumeNumber, hi.volume, hi.ds, hi.part, hi.leftInStretch, hi.pending⟩
    · rw [measure_eq h.exit, measure_eq (s := { s with inputEof := true }) h.exit, heof, if_pos rfl,
        if_neg Bool.false_ne_true]
      dsimp only
      change 1 + _ + 0 + 2 * s.phase P + _ < _
      omega
  next hsome =>
    generalize hret : min (readable + 1) (min (min 100000 s.rb.room) s.unread.length) = ret at hsome
    have hblock : (s.unread.take ret).length = ret := by
      rw [length_take]
      omega
    obtain ⟨rb', hstore, hwellFormed, hcontents, hsize⟩ := RingBuffer.store_spec (s.unread.take ret)
      h.wellFormed (by rw [hblock]; omega)
    rw [hstore]
    refine ⟨{ h with
      wellFormed := hwellFormed
      publicSize := hsize.trans h.publicSize
      input := ?_
      buffered := ?_
      eof := fun h' => absurd h' (by rw [heof]; decide)
      working := fun hworking => ?_
      idle := fun hidle => ?_ }, ?_, rfl, fun hsome => ?_⟩
    · rw [hcontents, ← append_assoc, append_assoc _ (s.unread.take ret), take_append_drop]
      exact h.input
    · rw [hcontents, length_append]
      exact le_trans h.buffered (Nat.le_add_right _ _)
    · have hw := h.working hworking
      exact ⟨hw.asked, hw.volumeNumber, hw.volume, hw.amount, hw.room⟩
    · have hi := h.idle hidle
      refine ⟨hi.volumeNumber, hi.volume, hi.ds, hi.part, hi.leftInStretch, fun hL => ?_⟩
      rw [hcontents]
      exact append_ne_nil_of_left_ne_nil (hi.pending hL) _
    · rw [measure_eq h.exit, measure_eq (s := { s with rb := rb', unread := s.unread.drop ret }) h.exit]
      dsimp only
      rw [heof, hcontents, length_append, hblock, length_drop]
      change 1 + _ + _ + 2 * s.phase P + _ < _
      have hrb := atEnd_le rb'
      omega
    · rw [hcontents]
      exact append_ne_nil_of_left_ne_nil hsome _

/-! ### Writing -/

theorem laid_get (h : Laid P input L ds part s) (havailable : s.rb.available ≠ 0) :
    Laid P input L ds part { s with rb := s.rb.get } ∧ Goes P s { s with rb := s.rb.get } := by
  have hcontents := RingBuffer.contents_get h.wellFormed havailable
  have hsize : s.rb.get.d_publicSize = s.rb.d_publicSize := by
    unfold RingBuffer.get
    split <;> rfl
  refine ⟨{ h with
    wellFormed := RingBuffer.wellFormed_get h.wellFormed havailable
    publicSize := hsize.trans h.publicSize
    input := by rw [hcontents]; exact h.input
    buffered := by rw [hcontents]; exact h.buffered
    working := fun hworking => ?_
    idle := fun hidle => ?_ }, ?_⟩
  · have hw := h.working hworking
    exact ⟨hw.asked, hw.volumeNumber, hw.volume, hw.amount, hw.room⟩
  · have hi := h.idle hidle
    exact ⟨hi.volumeNumber, hi.volume, hi.ds, hi.part, hi.leftInStretch, by rw [hcontents]; exact hi.pending⟩
  · by_cases hend : s.rb.d_rpos = s.rb.d_vector.length
    · refine .inr ?_
      rw [measure_eq h.exit, measure_eq (s := { s with rb := s.rb.get }) h.exit]
      dsimp only
      rw [hcontents]
      have hwas : atEnd s.rb = 1 := if_pos hend
      have his : atEnd s.rb.get = 0 := by
        rw [RingBuffer.get, if_pos hend, atEnd, if_neg]
        rw [h.wellFormed.length]
        exact (Nat.succ_ne_zero _).symm
      rw [hwas, his]
      change 1 + _ + _ + 2 * s.phase P + 0 < _
      omega
    · refine .inl ?_
      rw [RingBuffer.get, if_neg hend]

/-- How many octets are left in the volume. -/
theorem phase_working (hworking : s.outputStatus = .Working) :
    s.phase P = if s.leftInStretch ≠ 0 then 0 else if 3 < s.leftInVolume P then 1
      else if s.leftInVolume P = 3 then 6 else 5 := by
  rw [phase, hworking]

theorem capacity_lt (P : SplitParameters) : P.capacity < 2 ^ 64 := (P.volumeSize - 2048).toNat_lt

theorem small_concat {d : Octets} (h : ∀ ds' ∈ L ++ [ds], ∀ d ∈ ds', d.length < 65536) (hd : d.length < 65536) :
    ∀ ds' ∈ L ++ [ds ++ [d]], ∀ d ∈ ds', d.length < 65536 := by
  intro ds' hds' d' hd'
  rcases mem_append.mp hds' with hclosed | hlast
  · exact h ds' (mem_append_left _ hclosed) d' hd'
  · rw [mem_singleton.mp hlast] at hd'
    rcases mem_append.mp hd' with hold | hnew
    · exact h ds (mem_append_right _ (mem_singleton_self _)) d' hold
    · rw [mem_singleton.mp hnew]
      exact hd

/-- **A stretch is begun**: it is empty when there is just room for its header. -/
theorem startStretch_spec (h : Laid P input L ds part s) (hworking : s.outputStatus = .Working)
    (hleft : 3 ≤ s.leftInVolume P) (hnone : s.leftInStretch = 0) (t : SplitTurn) {n : Nat}
    (hn : n ≤ s.rb.contents.length) (hsize : n < 65536) (hroom : n ≤ s.leftInVolume P - 3)
    (hempty : n = 0 ↔ s.leftInVolume P = 3) :
    (∃ ds', Laid P input L ds' [] (s.startStretch t n) ∧ ([] ∈ ds' ↔ [] ∈ ds ∨ Cornered P s)) ∧
      (s.startStretch t n).measure P < s.measure P := by
  have hw := h.working hworking
  have hpart := h.complete hnone
  have hlength := leftInVolume_eq hw
  have hlt := capacity_lt P
  have hvolume : (s.startStretch t n).volume = s.volume ++ stretchHeader .Data n := by
    unfold startStretch output
    rw [writen_eq]
  have hvolumeLength : (s.startStretch t n).volume.length = s.volume.length + 3 := by
    rw [hvolume, length_append, length_stretchHeader]
  have hamount : (s.startStretch t n).d_amountOutputVolume.toNat = (s.startStretch t n).volume.length := by
    rw [hvolumeLength]
    change (s.d_amountOutputVolume + 3).toNat = _
    rw [UInt64.toNat_add, hw.amount]
    exact Nat.mod_eq_of_lt (by change s.volume.length + 3 < _; omega)
  have hfits : (s.startStretch t n).volume.length + (s.startStretch t n).leftInStretch ≤ P.capacity := by
    change _ + n ≤ _
    omega
  have hflat := h.input
  have hfed := h.md5
  rw [hpart, append_nil] at hflat hfed
  have hwhole := hw.volume
  rw [partialStretch, if_pos hnone, append_nil] at hwhole
  rcases Nat.eq_zero_or_pos n with rfl | hpos
  · have hwriting : Writing P L (ds ++ [[]]) [] (s.startStretch t 0) := by
      refine ⟨hw.asked, hw.volumeNumber, ?_, hamount, hfits⟩
      rw [hvolume, hwhole, dataStretches_concat, partialStretch,
        if_pos (show (s.startStretch t 0).leftInStretch = 0 from rfl), append_nil, append_nil,
        append_assoc]
      rfl
    refine ⟨⟨ds ++ [[]], { h with
      input := ?_
      md5 := ?_
      stretch := show 0 < 65536 by decide
      buffered := Nat.zero_le _
      complete := fun _ => rfl
      small := small_concat h.small (by decide)
      working := fun _ => hwriting
      idle := fun hidle => absurd hworking hidle }, ?_⟩, ?_⟩
    · rw [flatten_append, flatten_singleton, append_nil, append_nil]
      exact hflat
    · rw [flatten_append, flatten_singleton, append_nil, append_nil]
      exact hfed
    · exact iff_of_true (mem_append_right _ (mem_singleton_self _)) (.inr ⟨hnone, hempty.mp rfl⟩)
    · refine measure_lt_of_phase h.exit rfl rfl rfl ?_
      have hnow := leftInVolume_eq hwriting
      rw [hvolumeLength] at hnow
      rw [phase_working hworking, phase_working (show (s.startStretch t 0).outputStatus = _ from hworking), hnone,
        hempty.mp rfl, hnow, show P.capacity - (s.volume.length + 3) = 0 by omega]
      exact show 5 < 6 by decide
  · have hne : ¬ s.leftInVolume P = 3 := fun h3 => hpos.ne' (hempty.mpr h3)
    have hwriting : Writing P L ds [] (s.startStretch t n) := by
      refine ⟨hw.asked, hw.volumeNumber, ?_, hamount, hfits⟩
      rw [hvolume, hwhole, partialStretch, if_neg (show (s.startStretch t n).leftInStretch ≠ 0 from hpos.ne'),
        append_nil, length_nil, Nat.zero_add]
      rfl
    refine ⟨⟨ds, { h with
      input := by rw [append_nil]; exact hflat
      md5 := by rw [append_nil]; exact hfed
      stretch := by rw [length_nil, Nat.zero_add]; exact hsize
      buffered := hn
      complete := fun _ => rfl
      working := fun _ => hwriting
      idle := fun hidle => absurd hworking hidle }, ?_⟩, ?_⟩
    · exact ⟨.inl, fun hmem => hmem.resolve_right fun hcorner => hne hcorner.2⟩
    · refine measure_lt_of_phase h.exit rfl rfl rfl ?_
      rw [phase_working hworking, phase_working (show (s.startStretch t n).outputStatus = _ from hworking), hnone,
        if_pos (show (s.startStretch t n).leftInStretch ≠ 0 from hpos.ne'), if_neg (fun h => h rfl),
        if_pos (by omega)]
      exact Nat.one_pos

/-- The end of a volume that is written up to the end of a stretch. -/
theorem volumes_endVolume (h : Laid P input L ds part s) (hworking : s.outputStatus = .Working)
    (hnone : s.leftInStretch = 0) (t : SplitTurn) (eof : StretchType) :
    (s.endVolume t eof).volumes = closedVolumes P.toSplitSession 0 [] L ++
      [volumeOctets P.toSplitSession L.length L.flatten.flatten ds eof] := by
  have hw := h.working hworking
  have hfed := h.md5
  have hwhole := hw.volume
  rw [h.complete hnone, append_nil] at hfed
  rw [partialStretch, if_pos hnone, append_nil] at hwhole
  unfold endVolume output
  dsimp only
  rw [writen_eq, writen_eq, MD5Summer.get_of_fed hfed, h.volumes, hwhole]
  rw [append_assoc (P.perVolumeStretches L.length ++ dataStretches ds)]
  rfl

/-- **A full volume is closed.** -/
theorem closeVolume_spec (h : Laid P input L ds part s) (hworking : s.outputStatus = .Working)
    (hleft : s.leftInVolume P < 3) (hnone : s.leftInStretch = 0) (hpending : s.rb.contents ≠ []) (t : SplitTurn) :
    Laid P input (L ++ [ds]) [] [] (s.closeVolume t) ∧ (s.closeVolume t).measure P < s.measure P := by
  have hw := h.working hworking
  have hpart := h.complete hnone
  have hflat := h.input
  have hfed := h.md5
  rw [hpart, append_nil] at hflat hfed
  have hclosed := volumes_endVolume h hworking hnone t .VolumeEOF
  have hnow : (L ++ [ds]).flatten.flatten = L.flatten.flatten ++ ds.flatten := by
    rw [flatten_append, flatten_singleton, flatten_append]
  refine ⟨{ h with
    input := ?_
    md5 := ?_
    volumes := ?_
    stretch := by rw [show (s.closeVolume t).leftInStretch = 0 from hnone]; decide
    buffered := by rw [show (s.closeVolume t).leftInStretch = 0 from hnone]; exact Nat.zero_le _
    complete := fun _ => rfl
    small := ?_
    fits := ?_
    asked := fun hasked => absurd (hw.asked.symm.trans hasked) (by decide)
    working := (fun h => nomatch h)
    idle := fun _ => ⟨?_, rfl, rfl, rfl, hnone, fun _ => hpending⟩ }, ?_⟩
  · rw [hnow, flatten_nil, append_nil, append_nil]
    exact hflat
  · rw [hnow, flatten_nil, append_nil, append_nil]
    exact hfed
  · rw [closedVolumes_concat, Nat.zero_add, nil_append]
    exact hclosed
  · intro ds' hds' d hd
    rcases mem_append.mp hds' with hold | hnew
    · exact h.small ds' hold d hd
    · rw [mem_singleton.mp hnew] at hd
      cases hd
  · intro ds' hds'
    rcases mem_append.mp hds' with hold | hnew
    · exact h.fits ds' hold
    · have hroom := hw.room
      rw [hw.volume, length_append, length_append, P.length_perVolumeStretches] at hroom
      rw [mem_singleton.mp hnew]
      omega
  · rw [length_append, length_singleton]
    exact hw.volumeNumber
  · refine measure_lt_of_phase h.exit rfl rfl rfl ?_
    rw [phase_working hworking, phase_dying (show (s.closeVolume t).outputStatus = .Dying from rfl), hnone,
      if_neg (fun h => h rfl), if_neg (by omega), if_neg (by omega)]
    decide

/-- **Octets are written.** -/
theorem wrote_spec (h : Laid P input L ds part s) (hworking : s.outputStatus = .Working) (ret : Nat) (hret : 0 < ret)
    (hstretch : ret ≤ s.leftInStretch) (hshown : ret ≤ s.rb.contiguousAvailable) (havailable : ret ≤ s.rb.available) :
    (∃ ds' part', Laid P input L ds' part' (s.wrote ret) ∧ ([] ∈ ds' ↔ [] ∈ ds)) ∧
      (s.wrote ret).measure P < s.measure P := by
  have hw := h.working hworking
  have hroom := hw.room
  have hsize := h.stretch
  have hlt := capacity_lt P
  have hwritten := RingBuffer.shown_eq h.wellFormed hshown havailable
  have hcontents := RingBuffer.contents_advance h.wellFormed hshown havailable
  have hbuffered := h.buffered
  have hlength : (s.rb.shown ret).length = ret := by
    rw [hwritten, length_take, RingBuffer.length_contents h.wellFormed, Nat.min_eq_left havailable]
  have hinput : s.rb.shown ret ++ (s.wrote ret).rb.contents = s.rb.contents := by
    change _ ++ (s.rb.advance ret).contents = _
    rw [hwritten, hcontents, take_append_drop]
  have hfed : (s.wrote ret).md5.HasFed (L.flatten.flatten ++ ds.flatten ++ part ++ s.rb.shown ret) :=
    MD5Summer.hasFed_feed h.md5 (by rw [hlength]; omega)
  have hamount : (s.wrote ret).d_amountOutputVolume.toNat = (s.wrote ret).volume.length := by
    change (s.d_amountOutputVolume + UInt64.ofNat ret).toNat = (s.volume ++ s.rb.shown ret).length
    rw [UInt64.toNat_add, hw.amount, UInt64.toNat_ofNat', length_append, hlength, Nat.mod_eq_of_lt,
      Nat.mod_eq_of_lt]
    · omega
    · rw [Nat.mod_eq_of_lt (by omega)]
      omega
  have hfits : (s.wrote ret).volume.length + (s.wrote ret).leftInStretch ≤ P.capacity := by
    change (s.volume ++ s.rb.shown ret).length + (s.leftInStretch - ret) ≤ _
    rw [length_append, hlength]
    omega
  have hvolume : (s.wrote ret).volume = P.perVolumeStretches L.length ++ dataStretches ds ++
      (stretchHeader .Data (part.length + s.leftInStretch) ++ (part ++ s.rb.shown ret)) := by
    change s.volume ++ s.rb.shown ret = _
    rw [hw.volume, partialStretch, if_neg (by omega)]
    simp only [append_assoc]
  have hshorter : (s.wrote ret).rb.contents.length + ret = s.rb.contents.length := by
    rw [← hinput, length_append, hlength, Nat.add_comm]
  refine ⟨?_, ?_⟩
  · rcases Nat.eq_or_lt_of_le hstretch with hlast | hmore
    · -- The stretch is complete.
      have hnone : (s.wrote ret).leftInStretch = 0 := by
        change s.leftInStretch - ret = 0
        omega
      have hpart : (part ++ s.rb.shown ret).length = part.length + s.leftInStretch := by
        rw [length_append, hlength, hlast]
      refine ⟨ds ++ [part ++ s.rb.shown ret], [], { h with
        wellFormed := RingBuffer.wellFormed_advance h.wellFormed hshown
        input := ?_
        md5 := ?_
        stretch := by rw [hnone]; decide
        buffered := by rw [hnone]; exact Nat.zero_le _
        complete := fun _ => rfl
        small := small_concat h.small (by rw [hpart]; exact hsize)
        working := fun _ => ⟨hw.asked, hw.volumeNumber, ?_, hamount, hfits⟩
        idle := fun hidle => absurd hworking hidle }, ?_⟩
      · rw [flatten_append, flatten_singleton, append_nil, ← append_assoc ds.flatten,
          ← append_assoc L.flatten.flatten, ← append_assoc L.flatten.flatten,
          append_assoc _ _ (RingBuffer.contents _), hinput]
        exact h.input
      · rw [flatten_append, flatten_singleton, append_nil, ← append_assoc ds.flatten,
          ← append_assoc L.flatten.flatten, ← append_assoc L.flatten.flatten]
        exact hfed
      · rw [hvolume, dataStretches_concat, hpart, partialStretch, if_pos hnone, append_nil, append_assoc]
      · rw [mem_append, mem_singleton]
        refine or_iff_left fun hempty => ?_
        rw [← hempty, length_nil] at hpart
        omega
    · refine ⟨ds, part ++ s.rb.shown ret, { h with
        wellFormed := RingBuffer.wellFormed_advance h.wellFormed hshown
        input := ?_
        md5 := by rw [← append_assoc]; exact hfed
        stretch := ?_
        buffered := ?_
        complete := fun hnone => ?_
        working := fun _ => ⟨hw.asked, hw.volumeNumber, ?_, hamount, hfits⟩
        idle := fun hidle => absurd hworking hidle }, Iff.rfl⟩
      · rw [← append_assoc, append_assoc _ _ (RingBuffer.contents _), hinput]
        exact h.input
      · change (part ++ s.rb.shown ret).length + (s.leftInStretch - ret) < _
        rw [length_append, hlength]
        omega
      · change s.leftInStretch - ret ≤ _
        omega
      · change s.leftInStretch - ret = 0 at hnone
        omega
      · have hrest : (s.wrote ret).leftInStretch = s.leftInStretch - ret := rfl
        rw [hvolume, partialStretch, hrest, if_neg (by omega), length_append, hlength,
          show part.length + ret + (s.leftInStretch - ret) = part.length + s.leftInStretch by omega]
  · rw [measure_eq h.exit, measure_eq (show (s.wrote ret).exit = none from h.exit)]
    have hphase : (s.wrote ret).phase P ≤ 6 := by
      rw [phase_working (show (s.wrote ret).outputStatus = .Working from hworking)]
      split
      · decide
      · split
        · decide
        · split <;> decide
    have hend := atEnd_le (s.wrote ret).rb
    change 1 + 32 * (2 * s.unread.length + _) + (if s.inputEof then 0 else 16) + _ + _ < _
    omega

/-- The invariant, with whether a stretch of data is empty. -/
def Holds (P : SplitParameters) (input : Octets) (empty : Prop) (s : Splitpipe) : Prop :=
  ∃ L ds part, Laid P input L ds part s ∧ ([] ∈ L.flatten ++ ds ↔ empty)

/-- A turn of the inner loop has done something. -/
def Wrote (P : SplitParameters) (input : Octets) (empty : Prop) (s s' : Splitpipe) : Prop :=
  Holds P input (empty ∨ Cornered P s) s' ∧ s'.measure P < s.measure P

/-- **What a turn of the inner loop does**: when the output takes something it gets on, and there is another turn only
while the volume is being written and there is something in the buffer. -/
theorem writeOnce_cases {empty : Prop} (h : Holds P input empty s) (hworking : s.outputStatus = .Working)
    (havailable : s.rb.available ≠ 0) (t : SplitTurn) (bytesRead total : Nat) (taken : Option Nat) :
    ∃ total' s', (writeOnce P t bytesRead taken (total, s) = .leave (total', s') ∧
        (Wrote P input empty s s' ∨
          taken = none ∧ Holds P input (empty ∨ Cornered P s) s' ∧ Goes P s s')) ∨
      (writeOnce P t bytesRead taken (total, s) = .again (total', s') ∧ taken.isSome = true ∧
        Wrote P input empty s s' ∧ s'.outputStatus = .Working ∧ s'.rb.available ≠ 0) := by
  obtain ⟨L, ds, part, hlaid, hempty⟩ := h
  obtain ⟨hget, hgoes⟩ := laid_get hlaid havailable
  obtain ⟨hcontiguous, hle⟩ := RingBuffer.contiguousAvailable_get hlaid.wellFormed havailable
  have hroom := (hlaid.working hworking).room
  have hleft := leftInVolume_eq (hlaid.working hworking)
  have hcontents := RingBuffer.length_contents hget.wellFormed
  dsimp only at hcontents
  unfold writeOnce
  dsimp only
  split
  next hstart =>
    obtain ⟨hthree, hnone⟩ := hstart
    have hthree' : 3 ≤ s.leftInVolume P := hthree
    obtain ⟨⟨ds', hlaid', hempty'⟩, hless⟩ := startStretch_spec hget hworking hthree hnone t
      (n := min (min 0xffff s.rb.get.contiguousAvailable) (s.leftInVolume P - 3)) (by dsimp only; omega) (by omega)
      (Nat.min_le_right _ _) (by change _ ↔ s.leftInVolume P = 3; omega)
    refine ⟨total, _, .inl ⟨rfl, .inl ⟨⟨L, ds', [], hlaid', ?_⟩, hgoes.trans_lt hless⟩⟩⟩
    rw [mem_append, hempty', ← or_assoc, ← mem_append, hempty]
    rfl
  next hstart =>
    split
    next hfull =>
      have hnone : s.leftInStretch = 0 := by
        by_contra hsome
        change min (min s.rb.get.contiguousAvailable (s.leftInVolume P)) s.leftInStretch = 0 at hfull
        omega
      have hthree : s.leftInVolume P < 3 := Nat.lt_of_not_le fun hthree => hstart ⟨hthree, hnone⟩
      have hpending : s.rb.get.contents ≠ [] := by
        rw [← length_pos_iff]
        omega
      obtain ⟨hlaid', hless⟩ := closeVolume_spec hget hworking hthree hnone hpending t
      refine ⟨total, _, .inl ⟨rfl, .inl ⟨⟨L ++ [ds], [], [], hlaid', ?_⟩, hgoes.trans_lt hless⟩⟩⟩
      rw [append_nil, flatten_append, flatten_singleton, hempty]
      exact (or_iff_left fun hcorner => by have := hcorner.2; omega).symm
    next hsome =>
      have hinside : s.leftInStretch ≠ 0 := fun hnone => hsome (by rw [hnone, Nat.min_zero])
      have hnot : ¬ Cornered P s := fun hcorner => hinside hcorner.1
      cases taken with
      | none =>
        refine ⟨total, _, .inl ⟨rfl, .inr ⟨rfl, ⟨L, ds, part, hget, ?_⟩, hgoes⟩⟩⟩
        rw [hempty, or_iff_left hnot]
      | some n =>
        dsimp only
        generalize hret : min (min (min s.rb.get.contiguousAvailable (leftInVolume P { s with rb := s.rb.get }))
          s.leftInStretch) (n + 1) = ret
        obtain ⟨⟨ds', part', hlaid', hempty'⟩, hless⟩ := wrote_spec hget hworking ret (by omega)
          (by dsimp only; omega) (by dsimp only; omega) (by dsimp only; omega)
        have hwrote : Wrote P input empty s (wrote ret { s with rb := s.rb.get }) := by
          refine ⟨⟨L, ds', part', hlaid', ?_⟩, hgoes.trans_lt hless⟩
          rw [mem_append, hempty', ← mem_append, hempty, or_iff_left hnot]
        split
        next hmore =>
          exact ⟨_, _, .inr ⟨rfl, rfl, hwrote, hworking, hmore.2⟩⟩
        next => exact ⟨_, _, .inl ⟨rfl, .inl hwrote⟩⟩

/-- A stretch was empty before, or one of these states is cornered. -/
def EmptyBehind (P : SplitParameters) (empty : Prop) (heads : List (Nat × Splitpipe)) : Prop :=
  empty ∨ ∃ head ∈ heads, Cornered P head.2

theorem emptyBehind_concat {empty : Prop} {heads : List (Nat × Splitpipe)} {head : Nat × Splitpipe} :
    EmptyBehind P empty (heads ++ [head]) ↔ EmptyBehind P empty heads ∨ Cornered P head.2 := by
  unfold EmptyBehind
  rw [or_assoc]
  refine or_congr Iff.rfl ?_
  constructor
  · rintro ⟨h, hh, hcorner⟩
    rcases mem_append.mp hh with hold | hnew
    · exact .inl ⟨h, hold, hcorner⟩
    · rw [mem_singleton.mp hnew] at hcorner
      exact .inr hcorner
  · rintro (⟨h, hh, hcorner⟩ | hcorner)
    · exact ⟨h, mem_append_left _ hh, hcorner⟩
    · exact ⟨head, mem_append_right _ (mem_singleton_self _), hcorner⟩

theorem Holds.congr {empty empty' : Prop} (h : Holds P input empty s) (hiff : empty ↔ empty') :
    Holds P input empty' s := by
  obtain ⟨L, ds, part, hlaid, hempty⟩ := h
  exact ⟨L, ds, part, hlaid, hempty.trans hiff⟩

/-- **The inner loop.** -/
theorem loop_writeOnce (empty : Prop) (t : SplitTurn) (bytesRead : Nat) (l : List Nat)
    (heads : List (Nat × Splitpipe)) {total : Nat} {s₀ : Splitpipe} (h : Holds P input (EmptyBehind P empty heads) s)
    (hgoes : Goes P s₀ s) (hworking : s.outputStatus = .Working) (havailable : s.rb.available ≠ 0) :
    Holds P input (EmptyBehind P empty (heads ++ (loop (writeOnce P t bytesRead) l (total, s)).2))
        (loop (writeOnce P t bytesRead) l (total, s)).1.2 ∧
      Goes P s₀ (loop (writeOnce P t bytesRead) l (total, s)).1.2 := by
  refine @loop_spec _ _ (writeOnce P t bytesRead)
    (fun heads s => Holds P input (EmptyBehind P empty heads) s.2 ∧ Goes P s₀ s.2 ∧ s.2.outputStatus = .Working ∧
      s.2.rb.available ≠ 0)
    (fun heads s => Holds P input (EmptyBehind P empty heads) s.2 ∧ Goes P s₀ s.2) ?_ ?_ ?_ l heads (total, s)
    ⟨h, hgoes, hworking, havailable⟩
  · rintro n heads ⟨total, s⟩ s' ⟨hbefore, hgoes, hworking, havailable⟩ hagain
    obtain ⟨total', s'', hcases⟩ := writeOnce_cases hbefore hworking havailable t bytesRead total (some n)
    rcases hcases with ⟨hleave, -⟩ | ⟨hagain', -, hwrote, hworking', havailable'⟩
    · rw [hleave] at hagain
      cases hagain
    · rw [hagain'] at hagain
      cases hagain
      exact ⟨hwrote.1.congr emptyBehind_concat.symm, hgoes.trans (.inr hwrote.2), hworking', havailable'⟩
  · rintro a heads ⟨total, s⟩ s' ⟨hbefore, hgoes, hworking, havailable⟩ hleave
    obtain ⟨total', s'', hcases⟩ := writeOnce_cases hbefore hworking havailable t bytesRead total a
    rcases hcases with ⟨hleave', hend⟩ | ⟨hagain, -⟩
    · rw [hleave'] at hleave
      cases hleave
      rcases hend with hwrote | ⟨-, hheld, hgoes'⟩
      · exact ⟨hwrote.1.congr emptyBehind_concat.symm, hgoes.trans (.inr hwrote.2)⟩
      · exact ⟨hheld.congr emptyBehind_concat.symm, hgoes.trans hgoes'⟩
    · rw [hagain] at hleave
      cases hleave
  · -- An output that takes nothing ends the loop.
    rintro ⟨total, s⟩ s' hagain
    unfold writeOnce at hagain
    dsimp only at hagain
    split at hagain
    · cases hagain
    · split at hagain <;> cases hagain

theorem writeData_spec {empty : Prop} (h : Holds P input empty s) (hworking : s.outputStatus = .Working)
    (havailable : s.rb.available ≠ 0) (t : SplitTurn) (bytesRead : Nat) :
    Holds P input (empty ∨ ∃ head ∈ (s.writeData P t bytesRead).2, Cornered P head) (s.writeData P t bytesRead).1 ∧
      Goes P s (s.writeData P t bytesRead).1 ∧
      (t.writes ≠ [] → (s.writeData P t bytesRead).1.measure P < s.measure P) := by
  have hnothing : EmptyBehind P empty [] ↔ empty := or_iff_left fun h => by
    obtain ⟨_, hmem, -⟩ := h
    cases hmem
  obtain ⟨hheld, hgoes⟩ := loop_writeOnce empty t bytesRead t.writes [] (h.congr hnothing.symm)
    (Goes.refl s) hworking havailable
  refine ⟨hheld.congr (or_congr Iff.rfl ?_), hgoes, fun htakes => ?_⟩
  · unfold writeData
    constructor
    · rintro ⟨head, hhead, hcorner⟩
      exact ⟨head.2, mem_map_of_mem hhead, hcorner⟩
    · rintro ⟨head, hhead, hcorner⟩
      obtain ⟨head', hhead', rfl⟩ := mem_map.mp hhead
      exact ⟨head', hhead', hcorner⟩
  · obtain ⟨n, l, hl⟩ := exists_cons_of_ne_nil htakes
    unfold writeData
    rw [hl]
    unfold loop
    obtain ⟨total', s', hcases⟩ := writeOnce_cases h hworking havailable t bytesRead 0 (some n)
    rcases hcases with ⟨hleave, hend⟩ | ⟨hagain, -, hwrote, hworking', havailable'⟩
    · rw [hleave]
      rcases hend with hwrote | ⟨hnone, -⟩
      · exact hwrote.2
      · cases hnone
    · rw [hagain]
      exact Goes.lt_trans hwrote.2 (loop_writeOnce (empty ∨ Cornered P s) t bytesRead l []
        (hwrote.1.congr (or_iff_left fun h => by obtain ⟨_, hmem, -⟩ := h; cases hmem).symm) (Goes.refl s') hworking'
        havailable').2

/-! ### Turns of the main loop -/

theorem userEnters_same (t : SplitTurn) :
    (s.userEnters P t).rb = s.rb ∧ (s.userEnters P t).inputEof = s.inputEof := by
  unfold userEnters
  split <;> exact ⟨rfl, rfl⟩

theorem userEnters_working (h : Laid P input L ds part s) (hworking : s.outputStatus = .Working) (t : SplitTurn) :
    s.userEnters P t = s := by
  unfold userEnters
  rw [if_neg]
  rintro ⟨-, hasked⟩
  exact absurd (hworking.symm.trans (h.asked hasked)) (by decide)

/-- The state in front of `select`. -/
theorem prepared_spec (hroomy : P.Roomy) (h : Laid P input L ds part s) (t : SplitTurn) :
    Laid P input L ds part ((s.prepareVolume P t).reap t) ∧ Goes P s ((s.prepareVolume P t).reap t) := by
  obtain ⟨h₁, hgoes₁⟩ := prepareVolume_spec hroomy h t
  obtain ⟨h₂, hgoes₂⟩ := reap_spec h₁ t
  exact ⟨h₂, hgoes₁.trans hgoes₂⟩

theorem beforeWriting_spec (hroomy : P.Roomy) (h : Laid P input L ds part s) (t : SplitTurn) :
    Laid P input L ds part (s.beforeWriting P t).2.2 ∧
      Goes P (((s.prepareVolume P t).reap t).userEnters P t) (s.beforeWriting P t).2.2 ∧
      ((s.beforeWriting P t).1 = true →
        (s.beforeWriting P t).2.2.outputStatus = .Working ∧ (s.beforeWriting P t).2.2.rb.available ≠ 0) := by
  obtain ⟨h₂, -⟩ := prepared_spec hroomy h t
  unfold beforeWriting
  dsimp only
  revert h₂
  generalize (s.prepareVolume P t).reap t = s₂
  intro h₂
  obtain ⟨h₃, -⟩ := userEnters_spec hroomy h₂ t
  obtain ⟨hrb, heof⟩ := userEnters_same (P := P) (s := s₂) t
  have hwriting (h' : (s₂.rb.available != 0 && s₂.outputStatus = .Working && t.writable) = true) :
      s₂.userEnters P t = s₂ ∧ s₂.outputStatus = .Working ∧ s₂.rb.available ≠ 0 := by
    simp only [Bool.and_eq_true, bne_iff_ne, decide_eq_true_eq] at h'
    exact ⟨userEnters_working h₂ h'.1.2 t, h'.1.2, h'.1.1⟩
  cases t.readable with
  | none =>
    refine ⟨h₃, Goes.refl _, fun h' => ?_⟩
    obtain ⟨hsame, hworking, havailable⟩ := hwriting h'
    rw [hsame]
    exact ⟨hworking, havailable⟩
  | some readable =>
    dsimp only
    split
    next hinput =>
      simp only [Bool.and_eq_true, Bool.not_eq_true', bne_iff_ne] at hinput
      obtain ⟨hlaid, hless, hstatus, hcontents⟩ := readInput_spec h₃ (heof.trans hinput.1)
        (by rw [hrb]; exact hinput.2) readable
      refine ⟨hlaid, .inr hless, fun h' => ?_⟩
      obtain ⟨hsame, hworking, havailable⟩ := hwriting h'
      rw [hsame] at hlaid hstatus hcontents ⊢
      refine ⟨hstatus.trans hworking, ?_⟩
      rw [Ne, ← RingBuffer.contents_eq_nil_iff hlaid.wellFormed]
      exact hcontents fun hnil => havailable ((RingBuffer.contents_eq_nil_iff h₂.wellFormed).mp hnil)
    next =>
      refine ⟨h₃, Goes.refl _, fun h' => ?_⟩
      obtain ⟨hsame, hworking, havailable⟩ := hwriting h'
      rw [hsame]
      exact ⟨hworking, havailable⟩

/-- **The volumes of a run that has ended**: those of a session, or none for an empty input. -/
def Finished (P : SplitParameters) (input : Octets) (empty : Prop) (s : Splitpipe) : Prop :=
  s.exit = some true ∧
    ((input = [] ∧ s.volumes = []) ∨
      ∃ L last, s.volumes = sessionVolumes P.toSplitSession L last ∧ L.flatten.flatten ++ last.flatten = input ∧
        (∀ ds ∈ L ++ [last], ∀ d ∈ ds, d.length < 65536) ∧
        (∀ ds ∈ L ++ [last], P.perVolumeLength + (dataStretches ds).length ≤ P.capacity) ∧
        s.volumeNumber = L.length + 1 ∧ ([] ∈ L.flatten ++ last ↔ empty))

theorem finish_spec {empty : Prop} (h : Holds P input empty s) (hend : s.inputEof = true)
    (havailable : s.rb.available = 0) (t : SplitTurn) : Finished P input empty (s.finish t) := by
  obtain ⟨L, ds, part, hlaid, hempty⟩ := h
  have hcontents := (RingBuffer.contents_eq_nil_iff hlaid.wellFormed).mpr havailable
  have hnone : s.leftInStretch = 0 := by
    have hbuffered := hlaid.buffered
    rw [hcontents] at hbuffered
    exact Nat.le_zero.mp hbuffered
  have hinput := hlaid.input
  rw [hlaid.complete hnone, hcontents, hlaid.eof hend, append_nil, append_nil, append_nil] at hinput
  unfold finish
  split
  next hworking =>
    have hw := hlaid.working hworking
    refine ⟨rfl, .inr ⟨L, ds, volumes_endVolume hlaid hworking hnone t .SessionEOF, hinput, hlaid.small, ?_,
      hw.volumeNumber, hempty⟩⟩
    intro ds' hds'
    rcases mem_append.mp hds' with hold | hnew
    · exact hlaid.fits ds' hold
    · have hroom := hw.room
      rw [hw.volume, length_append, length_append, P.length_perVolumeStretches] at hroom
      rw [mem_singleton.mp hnew]
      omega
  next hidle =>
    have hi := hlaid.idle hidle
    have hL : L = [] := by
      by_contra hL
      exact hi.pending hL hcontents
    refine ⟨rfl, .inl ⟨?_, ?_⟩⟩
    · rw [← hinput, hL, hi.ds]
      rfl
    · change s.volumes = []
      rw [hlaid.volumes, hL]
      rfl

theorem measure_ended (h : s.exit = some true) : s.measure P = 0 := by
  rw [measure, h, Option.isSome_some, if_pos rfl]

theorem Finished.congr {empty empty' : Prop} (h : Finished P input empty s) (hiff : empty ↔ empty') :
    Finished P input empty' s := by
  obtain ⟨hexit, hnone | ⟨L, last, hvolumes, hinput, hsmall, hfits, hnumber, hempty⟩⟩ := h
  · exact ⟨hexit, .inl hnone⟩
  · exact ⟨hexit, .inr ⟨L, last, hvolumes, hinput, hsmall, hfits, hnumber, hempty.trans hiff⟩⟩

/-- The end of a turn: the loop goes on, or is left. -/
def ended (t : SplitTurn) (s : Splitpipe) : Splitpipe := if s.inputEof ∧ s.rb.available = 0 then s.finish t else s

theorem ended_spec {empty : Prop} (h : Holds P input empty s) (t : SplitTurn) :
    (Holds P input empty (s.ended t) ∨ Finished P input empty (s.ended t)) ∧ Goes P s (s.ended t) ∧
      (s.inputEof = true → s.rb.available = 0 → (s.ended t).measure P < s.measure P) := by
  have hpositive : 0 < s.measure P := by
    obtain ⟨L, ds, part, hlaid, -⟩ := h
    rw [measure_eq hlaid.exit]
    omega
  unfold ended
  split
  next hover =>
    have hfinished := finish_spec h hover.1 hover.2 t
    have hless : (s.finish t).measure P < s.measure P := by
      rw [measure_ended hfinished.1]
      exact hpositive
    exact ⟨.inr hfinished, .inr hless, fun _ _ => hless⟩
  next hnot => exact ⟨.inl h, Goes.refl s, fun heof havailable => absurd ⟨heof, havailable⟩ hnot⟩

theorem afterReading_eq (hexit : s.exit = none) (t : SplitTurn) (writing : Bool) (bytesRead : Nat) :
    afterReading P t (writing, bytesRead, s) =
      (if writing then (s.writeData P t bytesRead).1 else s).ended t := by
  unfold afterReading ended
  dsimp only
  rw [hexit, Option.isSome_none, if_neg Bool.false_ne_true]

theorem turn_eq (hroomy : P.Roomy) (h : Laid P input L ds part s) (t : SplitTurn) :
    s.turn P t = (if (s.beforeWriting P t).1 then
        ((s.beforeWriting P t).2.2.writeData P t (s.beforeWriting P t).2.1).1
      else (s.beforeWriting P t).2.2).ended t ∧
    s.heads P t = if (s.beforeWriting P t).1 then
        ((s.beforeWriting P t).2.2.writeData P t (s.beforeWriting P t).2.1).2 else [] := by
  obtain ⟨hlaid, -⟩ := beforeWriting_spec hroomy h t
  constructor
  · rw [turn, h.exit, Option.isSome_none, if_neg Bool.false_ne_true]
    exact afterReading_eq hlaid.exit t _ _
  · rw [heads, h.exit, Option.isSome_none, if_neg Bool.false_ne_true]
    revert hlaid
    generalize s.beforeWriting P t = before
    obtain ⟨writing, bytesRead, s₁⟩ := before
    intro hlaid
    cases writing with
    | true =>
      dsimp only
      rw [hlaid.exit, Option.isSome_none, if_neg Bool.false_ne_true, if_pos rfl]
    | false => rfl

/-- **A turn of the main loop** keeps the invariant, or ends the run. -/
theorem turn_spec (hroomy : P.Roomy) {empty : Prop} (h : Holds P input empty s) (t : SplitTurn) :
    (Holds P input (empty ∨ ∃ head ∈ s.heads P t, Cornered P head) (s.turn P t) ∨
      Finished P input (empty ∨ ∃ head ∈ s.heads P t, Cornered P head) (s.turn P t)) ∧ Goes P s (s.turn P t) := by
  obtain ⟨L, ds, part, hlaid, hempty⟩ := h
  obtain ⟨hturn, hheads⟩ := turn_eq hroomy hlaid t
  obtain ⟨hprepared, hgoes⟩ := prepared_spec hroomy hlaid t
  obtain ⟨-, hgoes'⟩ := userEnters_spec hroomy hprepared t
  obtain ⟨hbefore, hgoes'', hwriting⟩ := beforeWriting_spec hroomy hlaid t
  have hall := hgoes.trans (hgoes'.trans hgoes'')
  rw [hturn, hheads]
  split
  next hwrites =>
    obtain ⟨hworking, havailable⟩ := hwriting hwrites
    obtain ⟨hheld, hgoes₁, -⟩ := writeData_spec ⟨L, ds, part, hbefore, hempty⟩ hworking havailable t
      (s.beforeWriting P t).2.1
    obtain ⟨hresult, hgoes₂, -⟩ := ended_spec hheld t
    exact ⟨hresult, hall.trans (hgoes₁.trans hgoes₂)⟩
  next =>
    have hnothing : (empty ∨ ∃ head ∈ ([] : List Splitpipe), Cornered P head) ↔ empty :=
      or_iff_left fun ⟨_, hmem, _⟩ => nomatch hmem
    obtain ⟨hresult, hgoes₁, -⟩ := ended_spec ⟨L, ds, part, hbefore, hempty.trans hnothing.symm⟩ t
    exact ⟨hresult, hall.trans hgoes₁⟩

/-- The kinds of events that splitpipe waits for. -/
inductive Awaited
  | exited
  | enter
  | readable
  | writable

/-- The event comes in a turn. -/
def Awaited.comes : Awaited → SplitTurn → Prop
  | exited, t => t.exited = true
  | enter, t => t.enter = true
  | readable, t => t.readable.isSome = true
  | writable, t => t.writable = true ∧ t.writes ≠ []

/-- What follows in a turn brings the measure down no less. -/
theorem goes_turn (hroomy : P.Roomy) (h : Laid P input L ds part s) (t : SplitTurn) :
    Goes P (s.beforeWriting P t).2.2 (s.turn P t) ∧
      ((s.beforeWriting P t).1 = true → t.writes ≠ [] →
        (s.turn P t).measure P < (s.beforeWriting P t).2.2.measure P) := by
  obtain ⟨hturn, -⟩ := turn_eq hroomy h t
  obtain ⟨hbefore, -, hwriting⟩ := beforeWriting_spec hroomy h t
  rw [hturn]
  split
  next hwrites =>
    obtain ⟨hworking, havailable⟩ := hwriting hwrites
    obtain ⟨hheld, hgoes₁, hless⟩ := writeData_spec ⟨L, ds, part, hbefore, Iff.rfl⟩ hworking havailable t
      (s.beforeWriting P t).2.1
    obtain ⟨-, hgoes₂, -⟩ := ended_spec hheld t
    exact ⟨hgoes₁.trans hgoes₂, fun _ htakes => Goes.lt_trans (hless htakes) hgoes₂⟩
  next hwrites =>
    exact ⟨(ended_spec ⟨L, ds, part, hbefore, Iff.rfl⟩ t).2.1, fun hwrites' => absurd hwrites' hwrites⟩

/-- Nothing is done in front of `select`. -/
theorem prepared_eq (hready : ¬ (s.waitingForUser = false ∧ s.outputStatus = .Dead ∧
      (s.inputEof = true ∨ P.bufferSize < 2 * s.rb.available))) (hdying : s.outputStatus ≠ .Dying) (t : SplitTurn) :
    (s.prepareVolume P t).reap t = s := by
  rw [prepareVolume, if_neg hready, reap, if_neg (fun h => hdying h.2)]

theorem userEnters_eq (hasked : s.waitingForUser = false) (t : SplitTurn) : s.userEnters P t = s := by
  rw [userEnters, if_neg]
  rintro ⟨-, hwaits⟩
  exact Bool.false_ne_true (hasked.symm.trans hwaits)

/-- Where nothing else happens, what there is to read is read. -/
theorem turn_lt_of_readable (hroomy : P.Roomy) (h : Laid P input L ds part s) {t : SplitTurn}
    (hprepared : (s.prepareVolume P t).reap t = s) (hasked : s.waitingForUser = false) (heof : s.inputEof = false)
    (hroom : s.rb.room ≠ 0) (hreadable : t.readable.isSome = true) : (s.turn P t).measure P < s.measure P := by
  obtain ⟨n, hn⟩ := Option.isSome_iff_exists.mp hreadable
  obtain ⟨-, hless, -⟩ := readInput_spec h heof hroom n
  have hread : (s.beforeWriting P t).2.2 = (s.readInput n).2 := by
    unfold beforeWriting
    dsimp only
    rw [hprepared, userEnters_eq hasked, hn]
    dsimp only
    rw [if_pos (by rw [heof]; exact bne_iff_ne.mpr hroom)]
  refine Goes.lt_trans ?_ (goes_turn hroomy h t).1
  rw [hread]
  exact hless

/-- **There is always something that splitpipe waits for**, and gets on with when it comes. -/
theorem exists_awaited (hroomy : P.Roomy) (h : Laid P input L ds part s) :
    ∃ awaited : Awaited, ∀ t, awaited.comes t → (s.turn P t).measure P < s.measure P := by
  have hafter (t : SplitTurn) : Goes P ((s.prepareVolume P t).reap t) (s.turn P t) ∧
      Goes P (((s.prepareVolume P t).reap t).userEnters P t) (s.turn P t) := by
    obtain ⟨hprepared, -⟩ := prepared_spec hroomy h t
    obtain ⟨-, hgoes⟩ := userEnters_spec hroomy hprepared t
    obtain ⟨-, hgoes', -⟩ := beforeWriting_spec hroomy h t
    have hlast := hgoes'.trans (goes_turn hroomy h t).1
    exact ⟨hgoes.trans hlast, hlast⟩
  have hsize := RingBuffer.available_add_room h.wellFormed
  rw [h.publicSize] at hsize
  have hbuffer := P.bufferSize_pos
  cases hstatus : s.outputStatus with
  | Dying =>
    refine ⟨.exited, fun t hexited => Goes.lt_trans ?_ (hafter t).1⟩
    have hasked : s.waitingForUser = false := by
      rw [Bool.eq_false_iff]
      exact fun h' => absurd (hstatus.symm.trans (h.asked h')) (by decide)
    rw [prepareVolume, if_neg (fun h => absurd (hstatus.symm.trans h.2.1) (by decide)), reap,
      if_pos ⟨hexited, hstatus⟩]
    refine measure_lt_of_phase h.exit rfl rfl rfl ?_
    rw [phase_dying hstatus, phase_dead (s := { s with outputStatus := .Dead }) rfl, hasked]
    decide
  | Dead =>
    cases hasked : s.waitingForUser with
    | true =>
      refine ⟨.enter, fun t hentered => Goes.lt_trans ?_ (hafter t).2⟩
      rw [prepared_eq (fun h => absurd (hasked.symm.trans h.1) (by decide)) (by rw [hstatus]; decide) t, userEnters,
        if_pos ⟨hentered, hasked⟩]
      exact (openVolume_spec hroomy h hstatus t).2
    | false =>
      by_cases hready : s.inputEof = true ∨ P.bufferSize < 2 * s.rb.available
      · refine ⟨.readable, fun t _ => ?_⟩
        obtain ⟨hlaid, -⟩ := prepareVolume_spec hroomy h t
        obtain ⟨-, hgoes⟩ := reap_spec hlaid t
        refine Goes.lt_trans ?_ (hgoes.trans (hafter t).1)
        rw [prepareVolume, if_pos ⟨hasked, hstatus, hready⟩]
        split
        · refine measure_lt_of_phase h.exit rfl rfl rfl ?_
          rw [phase_dead hstatus, phase_dead (s := { s with waitingForUser := true }) hstatus, hasked]
          exact show 2 < 3 by decide
        · exact (openVolume_spec hroomy h hstatus t).2
      · obtain ⟨heof, hhalf⟩ := not_or.mp hready
        refine ⟨.readable, fun t hreadable => ?_⟩
        exact turn_lt_of_readable hroomy h (prepared_eq (fun h => hready h.2.2) (by rw [hstatus]; decide) t) hasked
          (Bool.eq_false_iff.mpr heof) (by omega) hreadable
  | Working =>
    have hasked := (h.working hstatus).asked
    have hprepared (t : SplitTurn) := prepared_eq (P := P) (s := s)
      (fun h => absurd (hstatus.symm.trans h.2.1) (by decide)) (by rw [hstatus]; decide) t
    by_cases havailable : s.rb.available = 0
    · cases heof : s.inputEof with
      | true =>
        refine ⟨.readable, fun t _ => ?_⟩
        have hbefore : (s.beforeWriting P t).1 = false ∧ (s.beforeWriting P t).2.2 = s := by
          unfold beforeWriting
          dsimp only
          rw [hprepared, userEnters_eq hasked, havailable, heof]
          cases t.readable <;> exact ⟨rfl, rfl⟩
        obtain ⟨hturn, -⟩ := turn_eq hroomy h t
        rw [hturn, hbefore.1, hbefore.2, if_neg Bool.false_ne_true]
        exact (ended_spec ⟨L, ds, part, h, Iff.rfl⟩ t).2.2 heof havailable
      | false =>
        exact ⟨.readable, fun t hreadable =>
          turn_lt_of_readable hroomy h (hprepared t) hasked heof (by omega) hreadable⟩
    · refine ⟨.writable, fun t hwritable => ?_⟩
      have hwrites : (s.beforeWriting P t).1 = true := by
        unfold beforeWriting
        dsimp only
        rw [hprepared, hstatus, hwritable.1]
        have hsome : (s.rb.available != 0) = true := bne_iff_ne.mpr havailable
        rw [hsome]
        cases t.readable <;> rfl
      obtain ⟨hgoes, -⟩ := beforeWriting_spec hroomy h t |>.2
      rw [hprepared, userEnters_eq hasked] at hgoes
      exact hgoes.trans_lt ((goes_turn hroomy h t).2 hwrites hwritable.2)

end Splitpipe

end PowerDNS
