import PowerDNS.Base.Serialize

/-!
# Serialised records one behind the other

`unSerialize` returns how many octets it has read, so that a text made of several serialisations
could be read record by record. `SplitBack` is what that takes: each record comes back, and its
serialisation is read up to its end.

`splitBack_iff` says which lists can be read so. A type without a name of its own is lost on the
way through `#` and its number, which `chartocode` does not know, and a time is read as an `int`.
As there is no separator behind the last field, what follows a serialisation is read into it: only
a single record is read up to its end.
-/

namespace PowerDNS

open List

/-- What `unSerialize` returns: how much of the text it has read. -/
def unSerializeEnd (source : Octets) : Nat :=
  let behind (source : Octets) : Octets := (readChunk source).2
  source.length - (behind^[7] source).length

/-- Serialisations one behind the other. -/
def serializeAll (rrs : List TextRR) : Octets := rrs.flatMap serialize

/-- The fields of `rr` that are serialised are read from `source` into `slot`, and nothing but its
serialisation is. -/
structure RecordReadsBack (slot rr : TextRR) (source : Octets) : Prop where
  qname : (unSerialize slot source).qname = rr.qname
  qtype : (unSerialize slot source).qtype = rr.qtype
  content : (unSerialize slot source).content = rr.content
  ttl : (unSerialize slot source).ttl = rr.ttl
  priority : (unSerialize slot source).priority = rr.priority
  domain_id : (unSerialize slot source).domain_id = rr.domain_id
  last_modified : (unSerialize slot source).last_modified = rr.last_modified
  consumed : unSerializeEnd source = (serialize rr).length

/-- The serialisations of records are split into the records they are made of. -/
def SplitBack (slot : TextRR) : List TextRR → Prop
  | [] => True
  | rr :: rrs => RecordReadsBack slot rr (serializeAll (rr :: rrs)) ∧ SplitBack slot rrs

variable {slot rr : TextRR}

theorem namedType_of_chartocode {code : UInt16} (h : chartocode (getName code) = code) : NamedType code := by
  unfold chartocode at h
  split at h
  next n hfind => exact .inr ⟨n, mem_of_find?_eq_some hfind, h⟩
  next => exact .inl h.symm

theorem range_of_toInt32 {x : Int} (h : toInt32 x = x) : -2 ^ 31 ≤ x ∧ x < 2 ^ 31 := by
  rw [← h]
  unfold toInt32
  have hle := Int.le_bmod (x := x) (m := 2 ^ 32) (by decide)
  have hlt := Int.bmod_lt (x := x) (m := 2 ^ 32) (by decide)
  constructor <;> omega

theorem escape_append (s t : Octets) : escape (s ++ t) = escape s ++ escape t := by
  induction s with
  | nil => rfl
  | cons c s ih =>
    rw [cons_append, escape, escape, ih]
    split
    next => rfl
    next => rfl

/-- What is read from a serialisation with something behind it: the last field goes on into that. -/
theorem unSerialize_append (slot rr : TextRR) (more : Octets) :
    unSerialize slot (serialize rr ++ more) =
        { rr with
          qclass := slot.qclass, wildcardname := slot.wildcardname, d_place := slot.d_place, auth := slot.auth
          qtype := chartocode (getName rr.qtype), domain_id := toInt32 rr.domain_id
          last_modified := atoi (readChunk (escape (itoa rr.last_modified) ++ more)).1 } ∧
      unSerializeEnd (serialize rr ++ more) =
        (serialize rr ++ more).length - (readChunk (escape (itoa rr.last_modified) ++ more)).2.length := by
  rw [serialize_eq]
  simp only [append_assoc, cons_append]
  constructor
  · unfold unSerialize
    simp only [readChunk_escape_pipe]
    rw [ofInt_atoi_ttl, ofInt_atoi_priority, atoi_itoa]
  · unfold unSerializeEnd
    dsimp only [Function.iterate_succ, Function.iterate_zero, Function.comp, id]
    simp only [readChunk_escape_pipe]

/-- A single serialisation is read up to its end, and gives the record if the type has a name and the
numbers fit an `int`. -/
theorem recordReadsBack_iff : RecordReadsBack slot rr (serialize rr) ↔ Serialisable rr := by
  constructor
  · intro h
    obtain ⟨hread, -⟩ := unSerialize_append slot rr []
    rw [append_nil, append_nil, readChunk_escape_end] at hread
    have hqtype := h.qtype
    have hid := h.domain_id
    have hmodified := h.last_modified
    rw [hread] at hqtype hid hmodified
    rw [atoi_itoa] at hmodified
    exact ⟨namedType_of_chartocode hqtype, range_of_toInt32 hid, range_of_toInt32 hmodified⟩
  · intro h
    have hread := unSerialize_serialize slot h
    have hconsumed : unSerializeEnd (serialize rr) = (serialize rr).length := by
      obtain ⟨-, hend⟩ := unSerialize_append slot rr []
      rwa [append_nil, append_nil, readChunk_escape_end] at hend
    exact ⟨by rw [hread], by rw [hread], by rw [hread], by rw [hread], by rw [hread], by rw [hread],
      by rw [hread], hconsumed⟩

/-- The last field of a serialisation is read into the next one. -/
theorem not_recordReadsBack {next : TextRR} (more : Octets) :
    ¬RecordReadsBack slot rr (serialize rr ++ (serialize next ++ more)) := by
  intro h
  have hconsumed := h.consumed
  obtain ⟨-, hend⟩ := unSerialize_append slot rr (serialize next ++ more)
  obtain ⟨rest, hrest⟩ : ∃ rest, serialize next ++ more = escape next.qname ++ pipe :: rest := by
    rw [serialize_eq, append_assoc]
    exact ⟨_, rfl⟩
  rw [hend, hrest, ← append_assoc (escape _), ← escape_append, readChunk_escape_pipe] at hconsumed
  simp only [length_append, length_cons] at hconsumed
  omega

/-- **What can be split.** Serialisations one behind the other are read back, each up to its end,
exactly when there is at most one, its type has a name or is 0, and its numbers fit an `int`. -/
theorem splitBack_iff (slot : TextRR) (rrs : List TextRR) :
    SplitBack slot rrs ↔ rrs.length ≤ 1 ∧ ∀ rr ∈ rrs, Serialisable rr := by
  match rrs with
  | [] => exact iff_of_true trivial ⟨Nat.zero_le 1, forall_mem_nil _⟩
  | [rr] =>
    have hall : serializeAll [rr] = serialize rr := append_nil _
    rw [SplitBack, hall, recordReadsBack_iff, forall_mem_singleton]
    exact ⟨fun h => ⟨Nat.le_refl 1, h.1⟩, fun h => ⟨h.2, trivial⟩⟩
  | rr :: next :: rrs =>
    refine iff_of_false (fun h => not_recordReadsBack (serializeAll rrs) h.1) fun h => ?_
    exact absurd h.1 (by simp)

/-- A record of type 4711, which has no name in the table. -/
def unnamedRecord : TextRR :=
  { qname := ascii "example.com", qtype := 4711, content := ascii "x", ttl := 60, domain_id := 1,
    wildcardname := [], last_modified := 0, auth := true }

/-- An address. -/
def namedRecord : TextRR :=
  { unnamedRecord with qtype := QType.A, content := ascii "192.0.2.1" }

/-- The type of the one becomes 0; behind the other a second one is read into its last field. -/
theorem type_and_rest_lost :
    (unSerialize unnamedRecord (serialize unnamedRecord)).qtype = 0 ∧ ¬SplitBack unnamedRecord [unnamedRecord] ∧
      ¬SplitBack unnamedRecord [namedRecord, namedRecord] := by
  have hzero : chartocode (getName unnamedRecord.qtype) = 0 := by decide +kernel
  have htype : (unSerialize unnamedRecord (serialize unnamedRecord)).qtype = 0 := by
    obtain ⟨hread, -⟩ := unSerialize_append unnamedRecord unnamedRecord []
    exact hzero
  refine ⟨htype, fun h => ?_, fun h => not_recordReadsBack (serializeAll []) h.1⟩
  have hqtype := h.1.qtype
  rw [show serializeAll [unnamedRecord] = serialize unnamedRecord from append_nil _, htype] at hqtype
  exact absurd hqtype (by decide)

end PowerDNS
