import PowerDNS.Splitpipe.Stretches

/-!
# Joining volumes: `JoinpipeMain`

joinpipe reads stretches from one volume after the other, and writes the data in them to its output. It looks at the
session, the number of the volume, and the checksums.
-/

namespace PowerDNS

open List

/-! ### The code -/

/-- The variables of `JoinpipeMain`: the names of its inputs are their contents here, and `infd` is what is left of
the one that is open. `turns` counts the turns of the loop. -/
structure Joinpipe where
  inputDevice : List Octets
  inputIter : Nat := 0
  infd : Octets
  buffer : Octets := []
  uuid : Octets := []
  numVolumes : Nat := 0
  md5 : MD5Summer := {}
  label : Octets := []
  output : Octets := []
  turns : Nat := 0

/-- How the loop goes on. -/
inductive Joined
  | running (j : Joinpipe)
  | success (output : Octets)
  | failure

/-- The pieces in which a stretch is read and written. -/
structure StretchPieces where
  header : List Nat
  content : List Nat
  output : List Nat

namespace Joinpipe

/-- The input that `inputIter` is at is opened. There is none behind the last. -/
def openInput (j : Joinpipe) (inputIter : Nat) : Joined :=
  match j.inputDevice[inputIter]? with
  | some infd => .running { j with inputIter := inputIter, infd := infd }
  | none => .failure

/-- What is done with a stretch of a type and a size; its content is in front of the buffer. -/
def process (pieces : List Nat) (type : UInt8) (size : Nat) (j : Joinpipe) : Joined :=
  let content := j.buffer.take size
  if type = StretchType.SessionUUID.code then
    if j.uuid = [] then .running { j with uuid := content }
    else if j.uuid ≠ content then j.openInput (j.inputIter + 1)
    else .running j
  else if type = StretchType.VolumeNumber.code then
    let newVolumeNumber := (j.buffer.getD 0 0).toNat * 256 + (j.buffer.getD 1 0).toNat
    if newVolumeNumber ≠ j.numVolumes then j.openInput (j.inputIter + 1)
    else .running { j with numVolumes := (j.numVolumes + 1) % 2 ^ 32 }
  else if type = StretchType.Data.code then
    let written := writen pieces content j.output
    if written.1 = 0 then .failure else .running { j with output := written.2, md5 := j.md5.feed content }
  else if type = StretchType.VolumeEOF.code then
    j.openInput (if j.inputIter + 1 ≠ j.inputDevice.length then j.inputIter + 1 else j.inputIter)
  else if type = StretchType.SessionEOF.code then .success j.output
  else if type = StretchType.MD5Checksum.code then if j.md5.get = content then .running j else .failure
  else if type = StretchType.SessionName.code then .running { j with label := content }
  else .running j

/-- A turn of the loop. -/
def turn (io : Nat → StretchPieces) (j : Joinpipe) : Joined :=
  let pieces := io j.turns
  let j := { j with turns := j.turns + 1 }
  match readn pieces.header 3 j.infd with
  | some ([hi, lo, type], infd) =>
    let size := hi.toNat * 256 + lo.toNat
    if size = 0 then process pieces.output type size { j with infd := infd }
    else
      match readn pieces.content size infd with
      | some (content, infd) =>
        process pieces.output type size { j with infd := infd, buffer := content ++ j.buffer.drop size }
      | none => .failure
  | _ => .failure

/-- So many turns of the loop. -/
def run (io : Nat → StretchPieces) : Nat → Joined → Joined
  | 0, j => j
  | n + 1, .running j => run io n (j.turn io)
  | _ + 1, j => j

/-- `JoinpipeMain`, with so many turns of its loop, on the given inputs. -/
def main (io : Nat → StretchPieces) (n : Nat) (inputDevice : List Octets) : Joined :=
  run io n (openInput { inputDevice := inputDevice, infd := [] } 0)

/-! ### Where the turns lead -/

/-- So many turns, and the rest as from there. -/
def Leads (io : Nat → StretchPieces) (x y : Joined) : Prop := ∃ n, ∀ m, run io (m + n) x = run io m y

section Leads

variable {io : Nat → StretchPieces} {x y z : Joined} {output : Octets}

theorem Leads.refl (x : Joined) : Leads io x x := ⟨0, fun _ => rfl⟩

theorem Leads.trans (h : Leads io x y) (h' : Leads io y z) : Leads io x z := by
  obtain ⟨n, hn⟩ := h
  obtain ⟨n', hn'⟩ := h'
  exact ⟨n' + n, fun m => by rw [← Nat.add_assoc, hn, hn']⟩

theorem leads_turn (io : Nat → StretchPieces) (j : Joinpipe) : Leads io (.running j) (j.turn io) := ⟨1, fun _ => rfl⟩

theorem run_success (n : Nat) : run io n (.success output) = .success output := by cases n <;> rfl

theorem run_failure (n : Nat) : run io n .failure = .failure := by cases n <;> rfl

/-- What has ended stays so. -/
theorem run_ended {n : Nat} (h : run io n x = .success output) (m : Nat) : run io (m + n) x = .success output := by
  induction n generalizing x with
  | zero =>
    cases h
    exact run_success _
  | succ n ih =>
    cases x with
    | running j => exact ih h
    | success o => exact h
    | failure => exact absurd h (by rw [run_failure]; exact fun h => nomatch h)

/-- A success is no failure. -/
theorem not_success_of_leads (h : Leads io x .failure) (n : Nat) : run io n x ≠ .success output := by
  obtain ⟨k, hk⟩ := h
  intro hn
  have hlate := run_ended hn k
  rw [Nat.add_comm, hk, run_failure] at hlate
  cases hlate

end Leads

/-! ### Reading stretches -/

/-- Where the loop is: at a volume of the session, with what has been read of the volumes so far, and what is left of
this one. -/
structure Reading (inputDevice : List Octets) (k : Nat) (uuid : Octets) (number : Nat) (data rest : Octets)
    (j : Joinpipe) : Prop where
  inputDevice : j.inputDevice = inputDevice
  inputIter : j.inputIter = k
  uuid : j.uuid = uuid
  numVolumes : j.numVolumes = number
  md5 : j.md5.HasFed data
  output : j.output = data
  infd : j.infd = rest

theorem Reading.congr_rest {inputDevice : List Octets} {k number : Nat} {uuid data rest rest' : Octets} {j : Joinpipe}
    (h : Reading inputDevice k uuid number data rest j) (heq : rest = rest') :
    Reading inputDevice k uuid number data rest' j := heq ▸ h

section Stretches

variable (io : Nat → StretchPieces) {vols : List Octets} {k number : Nat} {uuid data rest content : Octets}
  {j : Joinpipe} {type : StretchType}

/-- A stretch is read. -/
theorem turn_stretch (content : Octets) (hj : j.infd = stretchHeader type content.length ++ content ++ rest)
    (hsize : content.length < 65536) :
    j.turn io = process (io j.turns).output type.code content.length
      { j with infd := rest, buffer := content ++ j.buffer.drop content.length, turns := j.turns + 1 } := by
  have hread : readn (io j.turns).header 3 j.infd = some (stretchHeader type content.length, content ++ rest) := by
    rw [readn_eq, hj, if_pos (by rw [length_append, length_append, length_stretchHeader]; omega),
      append_assoc, take_left' (length_stretchHeader _ _), drop_left' (length_stretchHeader _ _)]
  unfold turn
  dsimp only
  rw [hread]
  dsimp only [stretchHeader, htons, cons_append, nil_append]
  rw [htons_toNat hsize]
  split
  next hzero =>
    rw [eq_nil_of_length_eq_zero hzero]
    rfl
  next hsome =>
    rw [readn_eq, if_pos (by rw [length_append]; omega), take_left, drop_left]

/-- A stretch that says whose volume it is. -/
theorem read_uuid
    (hj : Reading vols k uuid number data (stretchHeader .SessionUUID content.length ++ content ++ rest) j)
    (hsize : content.length < 65536) (huuid : uuid = [] ∨ uuid = content) :
    ∃ j', Leads io (.running j) (.running j') ∧ Reading vols k content number data rest j' := by
  have hturn := turn_stretch io _ hj.infd hsize
  have hleads := leads_turn io j
  rw [hturn] at hleads
  unfold process at hleads
  rw [take_left, if_pos rfl] at hleads
  by_cases hnone : j.uuid = []
  · rw [if_pos hnone] at hleads
    exact ⟨_, hleads, ⟨hj.inputDevice, hj.inputIter, rfl, hj.numVolumes, hj.md5, hj.output, rfl⟩⟩
  · have hsame : j.uuid = content := by
      rw [hj.uuid] at hnone ⊢
      exact huuid.resolve_left hnone
    rw [if_neg hnone, if_neg (not_not_intro hsame)] at hleads
    exact ⟨_, hleads, ⟨hj.inputDevice, hj.inputIter, hsame, hj.numVolumes, hj.md5, hj.output, rfl⟩⟩

/-- A stretch that is only reported. -/
theorem read_report (hj : Reading vols k uuid number data (stretchHeader type content.length ++ content ++ rest) j)
    (hsize : content.length < 65536) (htype : type = .VolumeDate ∨ type = .SessionName) :
    ∃ j', Leads io (.running j) (.running j') ∧ Reading vols k uuid number data rest j' := by
  have hleads := leads_turn io j
  rw [turn_stretch io _ hj.infd hsize] at hleads
  rcases htype with rfl | rfl
  · exact ⟨_, hleads, ⟨hj.inputDevice, hj.inputIter, hj.uuid, hj.numVolumes, hj.md5, hj.output, rfl⟩⟩
  · exact ⟨_, hleads, ⟨hj.inputDevice, hj.inputIter, hj.uuid, hj.numVolumes, hj.md5, hj.output, rfl⟩⟩

/-- The number of the volume: the one that is expected, or another. -/
theorem read_number {n : Nat}
    (hj : Reading vols k uuid number data (stretchHeader .VolumeNumber 2 ++ htons n ++ rest) j) :
    (n % 65536 = number → ∃ j', Leads io (.running j) (.running j') ∧
      Reading vols k uuid ((number + 1) % 2 ^ 32) data rest j') ∧
    (n % 65536 ≠ number → ∃ j', Leads io (.running j) (j'.openInput (k + 1)) ∧
      Reading vols k uuid number data rest j') := by
  have hleads := leads_turn io j
  rw [turn_stretch io (htons n) hj.infd (show 2 < 65536 by decide)] at hleads
  have hnumber : (UInt8.ofNat (n / 256)).toNat * 256 + (UInt8.ofNat n).toNat = n % 65536 := by
    rw [UInt8.toNat_ofNat', UInt8.toNat_ofNat']
    omega
  change Leads io _ (if (UInt8.ofNat (n / 256)).toNat * 256 + (UInt8.ofNat n).toNat ≠ j.numVolumes then _ else _)
    at hleads
  rw [hnumber] at hleads
  constructor
  · intro hexpected
    rw [if_neg (not_not_intro (hexpected.trans hj.numVolumes.symm))] at hleads
    exact ⟨_, hleads, ⟨hj.inputDevice, hj.inputIter, hj.uuid, by dsimp only; rw [hj.numVolumes], hj.md5, hj.output,
      rfl⟩⟩
  · intro hother
    rw [if_pos (fun h => hother (h.trans hj.numVolumes))] at hleads
    rw [← hj.inputIter]
    exact ⟨_, hleads, ⟨hj.inputDevice, rfl, hj.uuid, hj.numVolumes, hj.md5, hj.output, rfl⟩⟩

/-- A stretch of data: an empty one looks like an output that takes nothing any more. -/
theorem read_data (hj : Reading vols k uuid number data (stretchHeader .Data content.length ++ content ++ rest) j)
    (hsize : content.length < 65536) :
    (content ≠ [] →
      ∃ j', Leads io (.running j) (.running j') ∧ Reading vols k uuid number (data ++ content) rest j') ∧
    (content = [] → Leads io (.running j) .failure) := by
  have hleads := leads_turn io j
  rw [turn_stretch io _ hj.infd hsize] at hleads
  unfold process at hleads
  rw [take_left, if_neg (by decide), if_neg (by decide), if_pos rfl, writen_eq] at hleads
  constructor
  · intro hsome
    rw [if_neg (fun h => hsome (eq_nil_of_length_eq_zero h))] at hleads
    exact ⟨_, hleads, ⟨hj.inputDevice, hj.inputIter, hj.uuid, hj.numVolumes,
      MD5Summer.hasFed_feed hj.md5 (by omega), by dsimp only; rw [hj.output], rfl⟩⟩
  · intro hnone
    rwa [if_pos (by rw [hnone]; rfl)] at hleads

/-- A checksum of what has been read. -/
theorem read_checksum
    (hj : Reading vols k uuid number data (stretchHeader .MD5Checksum 16 ++ PowerDNS.md5 data ++ rest) j) :
    ∃ j', Leads io (.running j) (.running j') ∧ Reading vols k uuid number data rest j' := by
  have hleads := leads_turn io j
  rw [turn_stretch io (PowerDNS.md5 data) hj.infd (show 16 < 65536 by decide)] at hleads
  unfold process at hleads
  rw [take_left, if_neg (by decide), if_neg (by decide), if_neg (by decide), if_neg (by decide),
    if_neg (by decide), if_pos rfl, if_pos (MD5Summer.get_of_fed hj.md5)] at hleads
  exact ⟨_, hleads, ⟨hj.inputDevice, hj.inputIter, hj.uuid, hj.numVolumes, hj.md5, hj.output, rfl⟩⟩

/-- The end of a volume that is not the last. -/
theorem read_volumeEOF (hj : Reading vols k uuid number data (stretchHeader .VolumeEOF 0 ++ rest) j)
    (hlast : k + 1 ≠ vols.length) :
    ∃ j', Leads io (.running j) (j'.openInput (k + 1)) ∧ Reading vols k uuid number data rest j' := by
  have hleads := leads_turn io j
  rw [turn_stretch io [] hj.infd (by decide)] at hleads
  unfold process at hleads
  rw [if_neg (by decide), if_neg (by decide), if_neg (by decide), if_pos rfl,
    if_pos (by rw [hj.inputIter, hj.inputDevice]; exact hlast)] at hleads
  rw [← hj.inputIter]
  exact ⟨_, hleads, ⟨hj.inputDevice, rfl, hj.uuid, hj.numVolumes, hj.md5, hj.output, rfl⟩⟩

theorem read_sessionEOF (hj : Reading vols k uuid number data (stretchHeader .SessionEOF 0 ++ rest) j) :
    Leads io (.running j) (.success data) := by
  have hleads := leads_turn io j
  rw [turn_stretch io [] hj.infd (by decide)] at hleads
  unfold process at hleads
  rwa [if_neg (by decide), if_neg (by decide), if_neg (by decide), if_neg (by decide), if_pos rfl,
    hj.output] at hleads

end Stretches

/-! ### Reading volumes -/

section Volumes

variable {S : SplitSession} (io : Nat → StretchPieces) {vols : List Octets} {k number : Nat} {uuid data rest : Octets}
  {j : Joinpipe}

/-- What a volume says about its session, up to its number. -/
theorem read_session {n : Nat} (hlabel : S.label.length < 65536) (huuid : uuid = [] ∨ uuid = S.d_uuid)
    (hj : Reading vols k uuid number data (S.perVolumeStretches n ++ rest) j) :
    ∃ j', Leads io (.running j) (.running j') ∧
      Reading vols k S.d_uuid number data (stretchHeader .VolumeNumber 2 ++ htons n ++ rest) j' := by
  have hlength : S.d_uuid.length < 65536 := by
    rw [S.length_uuid]
    decide
  unfold SplitSession.perVolumeStretches appendStretch at hj
  have hdate : (htonl (S.now n)).length < 65536 := show 4 < 65536 by decide
  split at hj
  · simp only [nil_append, append_assoc] at hj
    obtain ⟨j₁, hleads₁, hj₁⟩ := read_uuid io (by rw [append_assoc]; exact hj) hlength huuid
    obtain ⟨j₂, hleads₂, hj₂⟩ := read_report io (by rw [append_assoc]; exact hj₁) hdate (.inl rfl)
    obtain ⟨j₃, hleads₃, hj₃⟩ := read_report io (by rw [append_assoc]; exact hj₂) hlabel (.inr rfl)
    exact ⟨j₃, hleads₁.trans (hleads₂.trans hleads₃), by rw [append_assoc]; exact hj₃⟩
  · simp only [nil_append, append_assoc] at hj
    obtain ⟨j₁, hleads₁, hj₁⟩ := read_uuid io (by rw [append_assoc]; exact hj) hlength huuid
    obtain ⟨j₂, hleads₂, hj₂⟩ := read_report io (by rw [append_assoc]; exact hj₁) hdate (.inl rfl)
    exact ⟨j₂, hleads₁.trans hleads₂, by rw [append_assoc]; exact hj₂⟩

variable {ds : List Octets}

/-- The stretches of data: an empty one stops joinpipe. -/
theorem read_stretches (hsmall : ∀ d ∈ ds, d.length < 65536)
    (hj : Reading vols k uuid number data (dataStretches ds ++ rest) j) :
    ([] ∉ ds → ∃ j', Leads io (.running j) (.running j') ∧
      Reading vols k uuid number (data ++ ds.flatten) rest j') ∧
    ([] ∈ ds → Leads io (.running j) .failure) := by
  induction ds generalizing data j with
  | nil =>
    refine ⟨fun _ => ⟨j, Leads.refl _, ?_⟩, fun h => nomatch h⟩
    rw [flatten_nil, append_nil]
    exact hj
  | cons d ds ih =>
    rw [dataStretches, flatMap_cons, append_assoc] at hj
    have hd := read_data io hj (hsmall d mem_cons_self)
    have hds (j' : Joinpipe) := @ih (data ++ d) j' fun d' hd' => hsmall d' (mem_cons_of_mem _ hd')
    constructor
    · intro hnone
      obtain ⟨j₁, hleads₁, hj₁⟩ := hd.1 fun h => hnone (h ▸ mem_cons_self)
      obtain ⟨j₂, hleads₂, hj₂⟩ := (hds j₁ hj₁).1 fun h => hnone (mem_cons_of_mem _ h)
      refine ⟨j₂, hleads₁.trans hleads₂, ?_⟩
      rw [flatten_cons, ← append_assoc]
      exact hj₂
    · intro hsome
      by_cases hempty : d = []
      · exact hd.2 hempty
      · obtain ⟨j₁, hleads₁, hj₁⟩ := hd.1 hempty
        exact hleads₁.trans ((hds j₁ hj₁).2 ((mem_cons.mp hsome).resolve_left fun h => hempty h.symm))

/-- A volume that is not expected here. -/
theorem read_other {n : Nat} {before : Octets} {eof : StretchType}
    (hlabel : S.label.length < 65536) (huuid : uuid = [] ∨ uuid = S.d_uuid) (hn : n % 65536 ≠ number)
    (hj : Reading vols k uuid number data (volumeOctets S n before ds eof) j) :
    ∃ j' rest, Leads io (.running j) (j'.openInput (k + 1)) ∧ Reading vols k S.d_uuid number data rest j' := by
  rw [volumeOctets, append_assoc] at hj
  obtain ⟨j₁, hleads₁, hj₁⟩ := read_session io hlabel huuid hj
  obtain ⟨j₂, hleads₂, hj₂⟩ := (read_number io hj₁).2 hn
  exact ⟨j₂, _, hleads₁.trans hleads₂, hj₂⟩

/-- A volume up to its last stretch. -/
theorem read_volume {n : Nat} {eof : StretchType} (hlabel : S.label.length < 65536)
    (huuid : uuid = [] ∨ uuid = S.d_uuid) (hsmall : ∀ d ∈ ds, d.length < 65536) (hn : n % 65536 = number)
    (hj : Reading vols k uuid number data (volumeOctets S n data ds eof) j) :
    ([] ∉ ds → ∃ j', Leads io (.running j) (.running j') ∧
      Reading vols k S.d_uuid ((number + 1) % 2 ^ 32) (data ++ ds.flatten) (stretchHeader eof 0) j') ∧
    ([] ∈ ds → Leads io (.running j) .failure) := by
  rw [volumeOctets, append_assoc] at hj
  obtain ⟨j₁, hleads₁, hj₁⟩ := read_session io hlabel huuid hj
  obtain ⟨j₂, hleads₂, hj₂⟩ := (read_number io hj₁).1 hn
  obtain ⟨hfull, hempty⟩ := read_stretches io hsmall hj₂
  constructor
  · intro hnone
    obtain ⟨j₃, hleads₃, hj₃⟩ := hfull hnone
    obtain ⟨j₄, hleads₄, hj₄⟩ := read_checksum io hj₃
    exact ⟨j₄, hleads₁.trans (hleads₂.trans (hleads₃.trans hleads₄)), hj₄⟩
  · exact fun hsome => hleads₁.trans (hleads₂.trans (hempty hsome))

/-- The volume at an input. -/
theorem reading_openInput {k' : Nat} {v : Octets} (hj : Reading vols k' uuid number data rest j)
    (hv : vols[k]? = some v) : ∃ j', j.openInput k = .running j' ∧ Reading vols k uuid number data v j' := by
  rw [openInput, hj.inputDevice, hv]
  exact ⟨_, rfl, ⟨rfl, rfl, hj.uuid, hj.numVolumes, hj.md5, hj.output, rfl⟩⟩

/-- **Behind 65536 volumes** joinpipe finds no volume with the number it expects, and comes to the end of its
inputs. -/
theorem leads_failure_of_number (hlabel : S.label.length < 65536) (huuid : uuid = [] ∨ uuid = S.d_uuid)
    (hvols : ∀ v ∈ vols, ∃ n before ds eof, v = volumeOctets S n before ds eof)
    {k' : Nat} (hj : Reading vols k' uuid 65536 data rest j) : Leads io (j.openInput k) .failure := by
  induction hleft : vols.length - k generalizing k k' uuid rest j with
  | zero =>
    have hend : vols[k]? = none := getElem?_eq_none (by omega)
    rw [openInput, hj.inputDevice, hend]
    exact Leads.refl _
  | succ left ih =>
    obtain ⟨v, hv⟩ : ∃ v, vols[k]? = some v := ⟨_, getElem?_eq_getElem (by omega)⟩
    obtain ⟨j₁, hopen, hj₁⟩ := reading_openInput hj hv
    obtain ⟨n, before, ds, eof, rfl⟩ := hvols v (mem_of_getElem? hv)
    -- The number in a volume has 16 bits.
    obtain ⟨j₂, rest₂, hleads, hj₂⟩ := read_other io hlabel huuid (by omega : n % 65536 ≠ 65536) hj₁
    rw [hopen]
    exact hleads.trans (ih (.inr rfl) hj₂ (by omega))

variable {L : List (List Octets)}

/-- **Reading a session**, from one of its volumes on: joinpipe comes to its end when there is no empty stretch of
data, and there are no more than 65536 volumes; otherwise it fails. -/
theorem leads_session {last : List Octets} {n k' : Nat} (hlabel : S.label.length < 65536)
    (huuid : uuid = [] ∨ uuid = S.d_uuid) (hn : n ≤ 65536)
    (hsmall : ∀ ds ∈ L ++ [last], ∀ d ∈ ds, d.length < 65536)
    (hall : ∀ v ∈ vols, ∃ n before ds eof, v = volumeOctets S n before ds eof)
    (hvols : vols.drop n = closedVolumes S n data L ++
      [volumeOctets S (n + L.length) (data ++ L.flatten.flatten) last .SessionEOF])
    (hj : Reading vols k' uuid n data rest j) :
    ([] ∉ L.flatten ++ last ∧ n + L.length < 65536 →
      Leads io (j.openInput n) (.success (data ++ L.flatten.flatten ++ last.flatten))) ∧
    (¬ ([] ∉ L.flatten ++ last ∧ n + L.length < 65536) → Leads io (j.openInput n) .failure) := by
  induction L generalizing n data uuid k' rest j with
  | nil =>
    rcases Nat.lt_or_ge n 65536 with hlt | hge
    swap
    · obtain rfl : n = 65536 := Nat.le_antisymm hn hge
      exact ⟨fun h => absurd h.2 (by omega), fun _ => leads_failure_of_number io hlabel huuid hall hj⟩
    rw [flatten_nil, flatten_nil, append_nil, length_nil, Nat.add_zero] at hvols
    have hv : vols[n]? = some (volumeOctets S n data last .SessionEOF) := by
      rw [← Nat.add_zero n, ← getElem?_drop, Nat.add_zero, hvols]
      rfl
    obtain ⟨j₁, hopen, hj₁⟩ := reading_openInput hj hv
    obtain ⟨hfull, hempty⟩ := read_volume io hlabel huuid (hsmall last (mem_singleton_self _))
      (Nat.mod_eq_of_lt hlt) hj₁
    rw [hopen, flatten_nil, nil_append, flatten_nil, append_nil]
    refine ⟨fun h => ?_, fun h => hempty ?_⟩
    · obtain ⟨j₂, hleads, hj₂⟩ := hfull h.1
      exact hleads.trans (read_sessionEOF io (hj₂.congr_rest (append_nil _).symm))
    · by_contra hnone
      exact h ⟨hnone, hlt⟩
  | cons ds L ih =>
    rcases Nat.lt_or_ge n 65536 with hlt | hge
    swap
    · obtain rfl : n = 65536 := Nat.le_antisymm hn hge
      exact ⟨fun h => absurd h.2 (by omega), fun _ => leads_failure_of_number io hlabel huuid hall hj⟩
    have hv : vols[n]? = some (volumeOctets S n data ds .VolumeEOF) := by
      rw [← Nat.add_zero n, ← getElem?_drop, Nat.add_zero, hvols]
      rfl
    have hnext : vols.drop (n + 1) = closedVolumes S (n + 1) (data ++ ds.flatten) L ++
        [volumeOctets S (n + 1 + L.length) (data ++ ds.flatten ++ L.flatten.flatten) last .SessionEOF] := by
      rw [← drop_drop, hvols, length_cons, flatten_cons, flatten_append, Nat.add_right_comm,
        Nat.add_assoc, append_assoc]
      rfl
    have hmore : n + 1 ≠ vols.length := by
      intro hlength
      rw [hlength, drop_length] at hnext
      exact absurd hnext.symm (append_ne_nil_of_right_ne_nil _ (cons_ne_nil _ _))
    obtain ⟨j₁, hopen, hj₁⟩ := reading_openInput hj hv
    obtain ⟨hfull, hempty⟩ := read_volume io hlabel huuid (hsmall ds mem_cons_self)
      (Nat.mod_eq_of_lt hlt) hj₁
    rw [hopen, flatten_cons, flatten_append, length_cons, append_assoc, mem_append,
      ← append_assoc data]
    by_cases hds : [] ∈ ds
    · exact ⟨fun h => absurd (.inl hds) h.1, fun _ => hempty hds⟩
    obtain ⟨j₂, hleads₂, hj₂⟩ := hfull hds
    obtain ⟨j₃, hleads₃, hj₃⟩ := read_volumeEOF io (hj₂.congr_rest (append_nil _).symm) hmore
    rw [Nat.mod_eq_of_lt (by omega)] at hj₃
    obtain ⟨hsuccess, hfailure⟩ := ih (.inr rfl) (by omega)
      (fun ds' hds' => hsmall ds' (mem_cons_of_mem _ hds')) hnext hj₃
    have hlength : n + 1 + L.length = n + (L.length + 1) := by omega
    rw [hlength] at hsuccess hfailure
    refine ⟨fun h => hleads₂.trans (hleads₃.trans (hsuccess ⟨fun hmem => h.1 (.inr hmem), h.2⟩)), fun h => ?_⟩
    refine hleads₂.trans (hleads₃.trans (hfailure fun hfine => h ⟨?_, hfine.2⟩))
    exact fun hmem => hmem.elim hds hfine.1

theorem mem_closedVolumes {n : Nat} {before v : Octets}
    (h : v ∈ closedVolumes S n before L) :
    ∃ n before, ∃ ds ∈ L, v = volumeOctets S n before ds .VolumeEOF := by
  induction L generalizing n before with
  | nil => cases h
  | cons ds L ih =>
    rcases mem_cons.mp h with hhead | htail
    · exact ⟨n, before, ds, mem_cons_self, hhead⟩
    · obtain ⟨n', before', ds', hds', hv⟩ := ih htail
      exact ⟨n', before', ds', mem_cons_of_mem _ hds', hv⟩

/-- **Joining a session.** -/
theorem main_session {last : List Octets} (hlabel : S.label.length < 65536)
    (hsmall : ∀ ds ∈ L ++ [last], ∀ d ∈ ds, d.length < 65536) (io : Nat → StretchPieces) (output : Octets) :
    (∃ n, main io n (sessionVolumes S L last) = .success output) ↔
      [] ∉ L.flatten ++ last ∧ L.length < 65536 ∧ output = L.flatten.flatten ++ last.flatten := by
  have hall : ∀ v ∈ sessionVolumes S L last, ∃ n before ds eof, v = volumeOctets S n before ds eof := by
    intro v hv
    rcases mem_append.mp hv with hclosed | hlast
    · obtain ⟨n, before, ds, -, hv⟩ := mem_closedVolumes hclosed
      exact ⟨n, before, ds, _, hv⟩
    · exact ⟨_, _, _, _, mem_singleton.mp hlast⟩
  have hstart : Reading (sessionVolumes S L last) 0 [] 0 [] []
      { inputDevice := sessionVolumes S L last, infd := [] } := ⟨rfl, rfl, rfl, rfl, fed_nil, rfl, rfl⟩
  obtain ⟨hsuccess, hfailure⟩ := leads_session io hlabel (.inl rfl) (Nat.zero_le _) hsmall hall
    (by rw [drop_zero, Nat.zero_add]; rfl) hstart
  rw [Nat.zero_add, nil_append] at hsuccess
  rw [Nat.zero_add] at hfailure
  constructor
  · rintro ⟨n, hn⟩
    by_cases hfine : [] ∉ L.flatten ++ last ∧ L.length < 65536
    · obtain ⟨k, hk⟩ := hsuccess hfine
      have hlate := run_ended hn k
      rw [Nat.add_comm, hk, run_success] at hlate
      cases hlate
      exact ⟨hfine.1, hfine.2, rfl⟩
    · exact absurd hn (not_success_of_leads (hfailure hfine) n)
  · rintro ⟨hnone, hlength, rfl⟩
    obtain ⟨k, hk⟩ := hsuccess ⟨hnone, hlength⟩
    refine ⟨k, ?_⟩
    have hend := hk 0
    rwa [Nat.zero_add] at hend

end Volumes

end Joinpipe

end PowerDNS
