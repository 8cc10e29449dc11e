import PowerDNS.Recursor.LWRes
import PowerDNS.Recursor.PacketOrder

/-!
# Answers for other clients: `startDoResolve` and the packet cache

`startDoResolve` writes an answer for one client. Over UDP it stops at the record that makes the
packet larger than the client takes, which is 512 octets, or what its OPT record says but at least
1280; when that record is one of the answer section, the packet is marked as truncated. What was
written goes into the packet cache, whose keys say nothing about sizes.

The writer is the function `written`: the octets of the packet when some records have been
written, of which the first four are left to the caller. `startRecord` keeps the place where a
record begins in 16 bits, and so does `size` with the size.

`stored_answer_suits_iff` says for which queries an answer that was written for another one is
right.
-/

namespace PowerDNS

open List Option

/-! ### How much a client takes -/

/-- `d_packetsize`, with which `getEDNSOpts` comes back. -/
def ednsPacketSize (types : TypeMap) (mdp : MOADNSParser) : Option UInt16 :=
  (getEDNSOpts types mdp).bind fun _ => mdp.d_answers.getLast?.map fun r => r.1.d_class

/-- `maxudpsize`, for a query that can be parsed. -/
def maxudpsize (types : TypeMap) (query : Octets) : Option Nat :=
  match MOADNSParser.init types query with
  | .error _ => none
  | .ok mdp =>
    match ednsPacketSize types mdp with
    | some d_packetsize => some (max d_packetsize.toNat 1280)
    | none => some 512

/-! ### The answer -/

/-- The packet as a `DNSPacketWriter` writes it. -/
structure AnswerWriter where
  written : List TextRR → Octets
  header : ∀ rrs, 12 ≤ (written rrs).length
  grows : ∀ rrs i, (written rrs).length ≤ (written (rrs ++ [i])).length

namespace AnswerWriter

variable (pw : AnswerWriter)

/-- `pw.size()`. -/
def size (rrs : List TextRR) : Nat := (pw.written rrs).length % 65536

/-- The records that are written before one makes the packet too large, and the others. -/
def cutAt (maxudpsize : Nat) : List TextRR → List TextRR → List TextRR × List TextRR
  | rrs, [] => (rrs, [])
  | rrs, i :: ret =>
    if maxudpsize < pw.size (rrs ++ [i]) then (rrs, i :: ret)
    else cutAt maxudpsize (rrs ++ [i]) ret

/-- What is in the packet when the loop is done, and whether it is truncated. -/
def writeAnswer (maxudpsize : Nat) (ret : List TextRR) : Octets × Bool :=
  match pw.cutAt maxudpsize [] ret with
  | (rrs, []) => (pw.written rrs, false)
  -- `rollback`, to where the record began
  | (rrs, i :: _) => ((pw.written rrs).take (pw.size rrs), decide (i.d_place = .ANSWER))

/-- The records of an answer: none when the question could not be resolved. -/
def answerRecords (res : Int) (ret : List TextRR) : List TextRR := if res < 0 then [] else ret

/-- The first four octets: the id of the query, and QR, TC, RD, RA and the result code. -/
def answerHeader (query : Octets) (res : Int) (tc : Bool) : Octets :=
  [query.getD 0 0, query.getD 1 0,
    0x80 ||| (if tc then 2 else 0) ||| (query.getD 2 0 &&& 1),
    0x80 ||| (if res < 0 then 2 else UInt8.ofNat (res.toNat % 16))]

/-- `startDoResolve`: the packet that is sent to a client over UDP, and stored, when `beginResolve`
and the scripts came back with `res` and `ret`. -/
def startDoResolve (query : Octets) (maxudpsize : Nat) (res : Int) (ret : List TextRR) : Octets :=
  let answer := pw.writeAnswer maxudpsize (answerRecords res ret)
  (answerHeader query res answer.2).take answer.1.length ++ answer.1.drop 4

/-! ### What is right -/

/-- The TC bit. -/
def truncated (response : Octets) : Bool := response.getD 2 0 &&& 2 != 0

/-- The response is one that a client may get who takes so many octets: it is not larger, and it
is truncated only if the full answer is. -/
structure Suits (maxudpsize : Nat) (ret : List TextRR) (response : Octets) : Prop where
  fits : response.length ≤ maxudpsize
  complete : truncated response = true → maxudpsize < (pw.written ret).length

/-- The packet is never too large while these records are written, one after the other. -/
def AllFit (maxudpsize : Nat) (rrs : List TextRR) : Prop :=
  ∀ kept, kept <+: rrs → kept ≠ [] → pw.size kept ≤ maxudpsize

/-- `i` is the record that makes the packet too large, after the records `rrs`. -/
structure FirstTooLarge (maxudpsize : Nat) (ret rrs : List TextRR) (i : TextRR) : Prop where
  isPrefix : rrs ++ [i] <+: ret
  allFit : pw.AllFit maxudpsize rrs
  tooLarge : maxudpsize < pw.size (rrs ++ [i])

/-- **When an answer that was written for another client is right**: if all records fit what that
client takes, they also fit what this one takes; if not, what is left when the record that did
not fit is rolled back fits what this one takes, and this record is none of the answer section,
or this client does not take the full answer either. -/
structure SuitsBoth (maxudpsize₁ maxudpsize₂ : Nat) (ret : List TextRR) : Prop where
  whole : pw.AllFit maxudpsize₁ ret → (pw.written ret).length ≤ maxudpsize₂
  rest : ∀ rrs i, pw.FirstTooLarge maxudpsize₁ ret rrs i → pw.size rrs ≤ maxudpsize₂ ∧
    (i.d_place = .ANSWER → maxudpsize₂ < (pw.written ret).length)

/-! ### One answer -/

section Answers

variable {pw}

/-- The loop cuts the records in two. -/
theorem cutAt_append (maxudpsize : Nat) (rrs ret : List TextRR) :
    (pw.cutAt maxudpsize rrs ret).1 ++ (pw.cutAt maxudpsize rrs ret).2 = rrs ++ ret := by
  induction ret generalizing rrs with
  | nil => rfl
  | cons i ret ih =>
    unfold cutAt
    split
    · rfl
    · rw [ih, append_assoc]
      rfl

/-- The loop stops at the first record that makes the packet too large, or at the end if there is
none. -/
theorem cutAt_spec (maxudpsize : Nat) (rrs ret : List TextRR) (hfit : pw.AllFit maxudpsize rrs) :
    pw.AllFit maxudpsize (pw.cutAt maxudpsize rrs ret).1 ∧
      ∀ i rest, (pw.cutAt maxudpsize rrs ret).2 = i :: rest →
        maxudpsize < pw.size ((pw.cutAt maxudpsize rrs ret).1 ++ [i]) := by
  induction ret generalizing rrs with
  | nil => exact ⟨hfit, nofun⟩
  | cons i ret ih =>
    unfold cutAt
    split
    next hlarge =>
      refine ⟨hfit, fun j rest heq => ?_⟩
      obtain ⟨rfl, -⟩ := List.cons.inj heq
      exact hlarge
    next hsmall =>
      refine ih _ fun kept hkept hne => ?_
      -- a prefix of what is written now is the whole of it, or one of what was written before
      rcases prefix_concat_iff.1 hkept with rfl | hbefore
      · exact Nat.le_of_not_lt hsmall
      · exact hfit kept hbefore hne

/-- The first record that makes the packet too large is one that does. -/
theorem FirstTooLarge.not_allFit {maxudpsize : Nat} {ret rrs : List TextRR} {i : TextRR}
    (h : pw.FirstTooLarge maxudpsize ret rrs i) : ¬ pw.AllFit maxudpsize ret := fun hfit =>
  absurd (hfit _ h.isPrefix (by simp)) (Nat.not_le_of_lt h.tooLarge)

/-- There is only one such record. -/
theorem FirstTooLarge.unique {maxudpsize : Nat} {ret rrs rrs' : List TextRR} {i i' : TextRR}
    (h : pw.FirstTooLarge maxudpsize ret rrs i) (h' : pw.FirstTooLarge maxudpsize ret rrs' i') :
    rrs = rrs' ∧ i = i' := by
  have hne : ∀ (kept : List TextRR) (j : TextRR), kept ++ [j] ≠ [] := by simp
  rcases prefix_or_prefix_of_prefix h.isPrefix h'.isPrefix with hp | hp
  · rcases prefix_concat_iff.1 hp with heq | hp
    · exact append_inj' heq rfl |>.imp_right fun h => (List.cons.inj h).1
    · exact absurd (h'.allFit _ hp (hne _ _)) (Nat.not_le_of_lt h.tooLarge)
  · rcases prefix_concat_iff.1 hp with heq | hp
    · exact append_inj' heq.symm rfl |>.imp_right fun h => (List.cons.inj h).1
    · exact absurd (h.allFit _ hp (hne _ _)) (Nat.not_le_of_lt h'.tooLarge)

/-- What has been written stays. -/
theorem length_written_append (rrs rest : List TextRR) :
    (pw.written rrs).length ≤ (pw.written (rrs ++ rest)).length := by
  induction rest generalizing rrs with
  | nil => rw [append_nil]
  | cons i rest ih =>
    calc (pw.written rrs).length ≤ (pw.written (rrs ++ [i])).length := pw.grows rrs i
      _ ≤ (pw.written (rrs ++ [i] ++ rest)).length := ih _
      _ = (pw.written (rrs ++ i :: rest)).length := by rw [append_assoc]; rfl

theorem length_startDoResolve (query : Octets) (maxudpsize : Nat) (res : Int) (ret : List TextRR) :
    (pw.startDoResolve query maxudpsize res ret).length =
      (pw.writeAnswer maxudpsize (answerRecords res ret)).1.length := by
  unfold startDoResolve
  rw [length_append, length_take, length_drop]
  change min _ 4 + _ = _
  omega

/-- The TC bit and the RD bit are different ones. -/
theorem tc_of_flags (tc : Bool) (x : UInt8) :
    ((0x80 ||| (if tc then 2 else 0) ||| (x &&& 1)) &&& 2 != 0) = tc := by
  have hright : ∀ a b c : UInt8, (a ||| b) &&& c = (a &&& c) ||| (b &&& c) :=
    fun a b c => UInt8.toBitVec_inj.1 BitVec.and_or_distrib_right
  rw [hright, UInt8.and_assoc, show (1 &&& 2 : UInt8) = 0 from rfl]
  cases tc <;> simp <;> decide

/-- What the answer to a query is found to be by another one: it has the length that was written,
and its TC bit. -/
theorem stored_length_truncated {query query₂ response : Octets} {maxudpsize₁ : Nat} {res : Int}
    {ret : List TextRR}
    (hresponse : response = query₂.getD 0 0 :: query₂.getD 1 0 :: response.drop 2)
    (hstored : response.drop 2 = (pw.startDoResolve query maxudpsize₁ res ret).drop 2) :
    response.length = max 2 (pw.writeAnswer maxudpsize₁ (answerRecords res ret)).1.length ∧
      (2 < (pw.writeAnswer maxudpsize₁ (answerRecords res ret)).1.length →
        truncated response = (pw.writeAnswer maxudpsize₁ (answerRecords res ret)).2) := by
  constructor
  · have hlen := congrArg List.length hresponse
    rw [hstored, length_cons, length_cons, length_drop, length_startDoResolve] at hlen
    omega
  · intro hlong
    have hget : response.getD 2 0 = (response.drop 2).getD 0 0 := by
      rw [getD_eq_getElem?_getD, getD_eq_getElem?_getD, getElem?_drop]
    have hflags : ((pw.startDoResolve query maxudpsize₁ res ret).drop 2).getD 0 0 =
        0x80 ||| (if (pw.writeAnswer maxudpsize₁ (answerRecords res ret)).2 then 2 else 0) |||
          (query.getD 2 0 &&& 1) := by
      rw [getD_eq_getElem?_getD, getElem?_drop]
      unfold startDoResolve
      rw [getElem?_append_left, getElem?_take]
      · rw [if_pos (by omega)]
        rfl
      · rw [length_take]
        change _ < min _ 4
        omega
    unfold truncated
    rw [hget, hstored, hflags]
    exact tc_of_flags _ _

/-- **An answer that was written for another client** suits this one if and only if the condition
holds. -/
theorem suits_iff {query query₂ response : Octets} {maxudpsize₁ maxudpsize₂ : Nat} {res : Int}
    {ret : List TextRR} (hmin : 512 ≤ maxudpsize₂) (hmax : maxudpsize₂ < 65536)
    (hresponse : response = query₂.getD 0 0 :: query₂.getD 1 0 :: response.drop 2)
    (hstored : response.drop 2 = (pw.startDoResolve query maxudpsize₁ res ret).drop 2) :
    pw.Suits maxudpsize₂ (answerRecords res ret) response ↔
      pw.SuitsBoth maxudpsize₁ maxudpsize₂ (answerRecords res ret) := by
  obtain ⟨hlength, htruncated⟩ := stored_length_truncated hresponse hstored
  generalize answerRecords res ret = records at hlength htruncated ⊢
  have hall : (pw.cutAt maxudpsize₁ [] records).1 ++ (pw.cutAt maxudpsize₁ [] records).2 = records :=
    cutAt_append maxudpsize₁ [] records
  have hspec := @cutAt_spec pw maxudpsize₁ [] records fun kept hkept hne =>
    absurd (prefix_nil.1 hkept) hne
  unfold writeAnswer at hlength htruncated
  generalize pw.cutAt maxudpsize₁ [] records = cut at hall hspec hlength htruncated
  obtain ⟨rrs, rest⟩ := cut
  cases rest with
  | nil =>
    -- nothing was cut off
    obtain rfl : rrs = records := by rwa [append_nil] at hall
    dsimp only at hlength htruncated
    have hheader := pw.header rrs
    have htc := htruncated (by omega)
    rw [max_eq_right (by omega)] at hlength
    constructor
    · intro h
      exact ⟨fun _ => hlength ▸ h.fits, fun _ _ hlarge => absurd hspec.1 hlarge.not_allFit⟩
    · intro h
      refine ⟨hlength ▸ h.whole hspec.1, fun ht => ?_⟩
      rw [htc] at ht
      cases ht
  | cons i rest =>
    dsimp only at hlength htruncated
    have hlarge : pw.FirstTooLarge maxudpsize₁ records rrs i :=
      ⟨⟨rest, by rw [← hall, append_assoc]; rfl⟩, hspec.1, hspec.2 i rest rfl⟩
    have hsuits : pw.SuitsBoth maxudpsize₁ maxudpsize₂ records ↔
        pw.size rrs ≤ maxudpsize₂ ∧
          (i.d_place = .ANSWER → maxudpsize₂ < (pw.written records).length) := by
      refine ⟨fun h => h.rest rrs i hlarge, fun h => ⟨fun hfit => absurd hfit hlarge.not_allFit, ?_⟩⟩
      intro rrs' i' hlarge'
      obtain ⟨rfl, rfl⟩ := hlarge.unique hlarge'
      exact h
    rw [hsuits]
    have hgrows : (pw.written rrs).length ≤ (pw.written records).length := by
      rw [← hall]
      exact length_written_append rrs (i :: rest)
    have htake : ((pw.written rrs).take (pw.size rrs)).length = pw.size rrs := by
      rw [length_take]
      exact min_eq_left (Nat.mod_le _ _)
    rw [htake] at hlength htruncated
    by_cases hlong : 2 < pw.size rrs
    · rw [max_eq_right (by omega)] at hlength
      have htc := htruncated hlong
      constructor
      · rintro ⟨hfits, hcomplete⟩
        refine ⟨hlength ▸ hfits, fun hplace => hcomplete ?_⟩
        rw [htc, decide_eq_true hplace]
      · rintro ⟨hfits, hcomplete⟩
        refine ⟨hlength ▸ hfits, fun htrue => hcomplete ?_⟩
        rw [htc] at htrue
        exact of_decide_eq_true htrue
    · -- 16 bits were not enough for the size, so nobody takes the full answer
      have hheader := pw.header rrs
      have hwrapped : 65536 ≤ (pw.written rrs).length := by
        unfold size at hlong
        omega
      exact iff_of_true ⟨by omega, fun _ => by omega⟩ ⟨by omega, fun _ => by omega⟩

end Answers

end AnswerWriter

/-! ### Answers out of the cache -/

open RecursorPacketCache AnswerWriter

/-- What a client takes is at least 512 octets, and a number of 16 bits. -/
theorem maxudpsize_bounds {types : TypeMap} {query : Octets} {n : Nat}
    (h : maxudpsize types query = some n) : 512 ≤ n ∧ n < 65536 := by
  unfold maxudpsize at h
  split at h
  next => cases h
  next mdp _ =>
    split at h
    next d_packetsize _ =>
      obtain rfl := some.inj h
      have hlt := d_packetsize.toNat_lt
      omega
    next =>
      obtain rfl := some.inj h
      omega

/-- A writer of addresses of the name in the question. -/
def addressWriter : AnswerWriter where
  written rrs :=
    [0, 0, 0, 0, 0, 1, 0, UInt8.ofNat rrs.length, 0, 0, 0, 0, 1, 97, 0, 0, 1, 0, 1] ++
      rrs.flatMap fun _ => [0xc0, 0x0c, 0, 1, 0, 1, 0, 0, 0x0e, 0x10, 0, 4, 192, 0, 2, 1]
  header rrs := by
    rw [length_append]
    change 12 ≤ 19 + _
    omega
  grows rrs i := by
    rw [flatMap_append, length_append, ← append_assoc, length_append,
      length_append]
    change 19 + _ ≤ 19 + _ + _
    omega

/-- Addresses of `a`. -/
def addresses (n : Nat) : List TextRR :=
  List.replicate n
    { qtype := QType.A, qname := ascii "a.", wildcardname := [], content := ascii "192.0.2.1",
      ttl := 3600 }

/-- A query for the address of `a`, without EDNS, and with it for 4096 octets. -/
def plainQuery : Octets := queryFor 1 97

def ednsQuery : Octets :=
  [0x12, 0x35, 1, 0, 0, 1, 0, 0, 0, 0, 0, 1, 1, 97, 0, 0, 1, 0, 1, 0, 0, 41, 16, 0, 0, 0, 0, 0, 0, 0]

/-- A cache in which the answer for a query was stored. -/
def cacheWith (query : Octets) (maxudpsize n : Nat) : List Entry :=
  [{ d_ttd := 160, d_creation := 100
     d_packet := addressWriter.startDoResolve query maxudpsize 0 (addresses n) }]

end PowerDNS
