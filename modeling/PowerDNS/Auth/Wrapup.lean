import Mathlib.Data.List.Sort
import Mathlib.Data.List.TakeWhile
import PowerDNS.Base.Serialize
import PowerDNS.Lib.Batches

/-!
# Writing a reply: `DNSPacket::wrapup`

`wrapup` puts the records of a reply in the order of their sections, shuffles those of a UDP
reply, and writes them. With the DO bit it signs as it goes: the contents of authoritative records
gather in `toSign`, and when the owner name or the type changes `addSignature` puts a signature
over them into the packet. A UDP reply ends at the first record that makes it too large.

What has been written is a list of `Emitted`, from which the record that was rolled back is
missing. The contents of records are those of the records they belong to: `toSign` is a list of
records. What `wrapup` asks of others is in a `WrapupEnv`: the settings, what `random_shuffle`
comes up with, the key repository, which contents can be parsed, and how many octets the writer
needs for a record, which depends on what is in front of it.

`wrapup_signatures` says what is signed in terms of `turns`: the signatures are the batches of
the records that are written, with a turn behind every record that is signed.
-/

namespace PowerDNS

open Batches List

/-! ### What is written -/

/-- A signature: its owner, the name that is signed for, which is the wildcard if there is one, the
name of the zone that signs it, the type, TTL and section, the key, and the records whose contents
it is made over. -/
structure RRSIG where
  owner : Octets
  name : Octets
  signer : Octets
  type : UInt16
  ttl : UInt32
  place : Place
  ksk : Bool
  signed : List TextRR
  deriving DecidableEq

/-- A record that was written: one of the reply, a signature, or the OPT record. -/
inductive Emitted
  | record (rr : TextRR)
  | rrsig (s : RRSIG)
  | opt (dnssecOk : Bool) (options : List (UInt16 × Octets))
  deriving DecidableEq

/-- What `wrapup` finds around it. -/
structure WrapupEnv where
  noShuffle : Bool
  /-- What `random_shuffle` makes of the records of a section. -/
  randomShuffle : Place → List TextRR → List TextRR
  perm : ∀ place rrs, (randomShuffle place rrs).Perm rrs
  /-- `server-id`. -/
  serverId : Octets
  /-- The key repository: `haveKSKFor`, and whether `getZSKsFor` has an active key. -/
  haveKSKFor : Octets → Bool
  activeZSKFor : Octets → Bool
  /-- The contents that `DNSRecordContent::mastermake` does not throw at. -/
  mastermake : UInt16 → Octets → Bool
  /-- The octets of the header and the question, and those of a record behind others. -/
  start : Nat
  octets : List Emitted → Emitted → Nat

/-- What `wrapup` reads of a `DNSPacket`. -/
structure DNSPacket where
  d_tcp : Bool
  d_dnssecOk : Bool
  d_maxreplylen : Nat
  d_ednsping : Octets := []
  d_wantsnsid : Bool := false
  d_rrs : List TextRR
  deriving DecidableEq

/-- The packet that was written. -/
structure Wrapped where
  items : List Emitted
  tc : Bool
  deriving DecidableEq

namespace WrapupEnv

variable (env : WrapupEnv)

/-- The octets of records behind others. -/
def sizeBehind (before : List Emitted) : List Emitted → Nat
  | [] => 0
  | e :: items => env.octets before e + sizeBehind (before ++ [e]) items

/-- The octets of a packet. -/
def size (items : List Emitted) : Nat := env.start + env.sizeBehind [] items

/-- `getSignerFor`: the closest name at or above `signer` that has a key; `start` says that a
label starts here. -/
def getSignerFrom : Bool → Octets → Option Octets
  | _, [] => if env.haveKSKFor [] then some [] else none
  | start, c :: signer =>
    if start && env.haveKSKFor (c :: signer) then some (c :: signer)
    else getSignerFrom (c == dot) signer

/-- `getSignerFor(keyrepodir, qname, signer)`. -/
def getSignerFor (qname : Octets) : Option Octets := env.getSignerFrom true qname

end WrapupEnv

/-! ### Sections -/

/-- The number of a section. -/
def Place.index : Place → Nat
  | .QUESTION => 0
  | .ANSWER => 1
  | .AUTHORITY => 2
  | .ADDITIONAL => 3

/-- `stable_sort` by `rrcomp`. -/
def sortSections (rrs : List TextRR) : List TextRR :=
  rrs.insertionSort fun a b => a.d_place.index ≤ b.d_place.index

/-- Where `shuffle` starts in a section: "CNAME must come first". -/
def startsShuffle (place : Place) (rr : TextRR) : Bool :=
  rr.d_place = place && rr.qtype ≠ QType.CNAME

/-- `shuffle`: the answer records, and then the additional records behind them. -/
def shuffle (env : WrapupEnv) (rrs : List TextRR) : List TextRR :=
  let before := rrs.takeWhile fun rr => !startsShuffle .ANSWER rr
  let rest := rrs.dropWhile fun rr => !startsShuffle .ANSWER rr
  let answers := rest.takeWhile fun rr => rr.d_place = .ANSWER
  let behind := rest.dropWhile fun rr => rr.d_place = .ANSWER
  let between := behind.takeWhile fun rr => !startsShuffle .ADDITIONAL rr
  let rest' := behind.dropWhile fun rr => !startsShuffle .ADDITIONAL rr
  let additionals := rest'.takeWhile fun rr => rr.d_place = .ADDITIONAL
  before ++ env.randomShuffle .ANSWER answers ++ between ++
    env.randomShuffle .ADDITIONAL additionals ++ rest'.dropWhile fun rr => rr.d_place = .ADDITIONAL

/-- `shuffle` moves records within their sections. -/
theorem map_place_shuffle (env : WrapupEnv) (rrs : List TextRR) :
    ((shuffle env rrs).map fun rr => rr.d_place) = rrs.map fun rr => rr.d_place := by
  -- a permutation of records of one section has their places
  have hshuffled : ∀ (place : Place) (rest : List TextRR),
      (env.randomShuffle place (rest.takeWhile fun rr => rr.d_place = place)).map
          (fun rr => rr.d_place) =
        (rest.takeWhile fun rr => rr.d_place = place).map fun rr => rr.d_place := by
    intro place rest
    have hplace : ∀ rr ∈ rest.takeWhile fun rr => rr.d_place = place, rr.d_place = place := by
      intro rr hrr
      simpa using mem_takeWhile_imp hrr
    have hperm := env.perm place (rest.takeWhile fun rr => rr.d_place = place)
    rw [map_congr_left (g := fun _ => place) fun rr hrr => hplace rr hrr,
      map_congr_left (g := fun _ => place) fun rr hrr => hplace rr (hperm.mem_iff.mp hrr),
      map_const', map_const', hperm.length_eq]
  unfold shuffle
  simp only [map_append, hshuffled]
  simp only [← map_append, append_assoc, takeWhile_append_dropWhile]

namespace DNSPacket

/-- The content as it is written: with the priority, in quotes, and never empty. -/
def writtenContent (rr : TextRR) : Octets :=
  let content :=
    if rr.qtype = QType.MX ∨ rr.qtype = QType.SRV then
      decimal rr.priority.toNat ++ ascii " " ++ rr.content
    else rr.content
  let content :=
    if rr.qtype = QType.TXT ∧ content ≠ [] ∧ content.head? ≠ some 34 then [34] ++ content ++ [34]
    else content
  -- empty contents confuse the MOADNS setup
  if content = [] then [dot] else content

/-- A record as it is written. -/
def written (rr : TextRR) : TextRR := { rr with content := writtenContent rr }

/-- The records in the order in which they are written. -/
def arranged (env : WrapupEnv) (p : DNSPacket) : List TextRR :=
  let rrs := sortSections p.d_rrs
  (if !p.d_tcp && !env.noShuffle then shuffle env rrs else rrs).map written

/-- The EDNS options of the reply. -/
def opts (env : WrapupEnv) (p : DNSPacket) : List (UInt16 × Octets) :=
  (if p.d_wantsnsid then [(3, env.serverId)] else []) ++
    if p.d_ednsping ≠ [] then [(4, p.d_ednsping)] else []

/-- `shuffle` moves records about. -/
theorem shuffle_perm (env : WrapupEnv) (rrs : List TextRR) : (shuffle env rrs).Perm rrs := by
  unfold shuffle
  dsimp only
  generalize hrest : (rrs.dropWhile fun rr => !startsShuffle .ANSWER rr) = rest
  generalize hbehind : (rest.dropWhile fun rr => decide (rr.d_place = .ANSWER)) = behind
  generalize hrest' : (behind.dropWhile fun rr => !startsShuffle .ADDITIONAL rr) = rest'
  have h₁ : (env.randomShuffle .ADDITIONAL (rest'.takeWhile fun rr => rr.d_place = .ADDITIONAL) ++
      rest'.dropWhile fun rr => rr.d_place = .ADDITIONAL).Perm rest' := by
    refine ((env.perm _ _).append_right _).trans (List.Perm.of_eq ?_)
    exact takeWhile_append_dropWhile
  have h₂ : (env.randomShuffle .ANSWER (rest.takeWhile fun rr => rr.d_place = .ANSWER) ++
      behind).Perm rest := by
    refine ((env.perm _ _).append_right _).trans (List.Perm.of_eq ?_)
    rw [← hbehind]
    exact takeWhile_append_dropWhile
  have h₃ : ((behind.takeWhile fun rr => !startsShuffle .ADDITIONAL rr) ++ rest') = behind := by
    rw [← hrest']
    exact takeWhile_append_dropWhile
  have h₄ : ((rrs.takeWhile fun rr => !startsShuffle .ANSWER rr) ++ rest) = rrs := by
    rw [← hrest]
    exact takeWhile_append_dropWhile
  simp only [append_assoc]
  refine (List.Perm.append_left _ ?_).trans (List.Perm.of_eq h₄)
  refine (List.Perm.append_left _ ?_).trans h₂
  exact (List.Perm.append_left _ h₁).trans (List.Perm.of_eq h₃)

/-- The records are those of the reply. -/
theorem arranged_perm (env : WrapupEnv) (p : DNSPacket) :
    (arranged env p).Perm (p.d_rrs.map written) := by
  refine List.Perm.map _ ?_
  have hsort : (sortSections p.d_rrs).Perm p.d_rrs := perm_insertionSort _ _
  split
  · exact (shuffle_perm env _).trans hsort
  · exact hsort

theorem arranged_eq_nil {env : WrapupEnv} {p : DNSPacket} : arranged env p = [] ↔ p.d_rrs = [] := by
  rw [← length_eq_zero_iff, (arranged_perm env p).length_eq, length_map,
    length_eq_zero_iff]

/-- **The records are in the order of their sections.** -/
theorem arranged_sections (env : WrapupEnv) (p : DNSPacket) :
    (arranged env p).Pairwise fun a b => a.d_place.index ≤ b.d_place.index := by
  have hmap : ((arranged env p).map fun rr => rr.d_place) =
      (sortSections p.d_rrs).map fun rr => rr.d_place := by
    unfold arranged
    rw [map_map]
    split
    · exact map_place_shuffle env _
    · rfl
  have hsorted : (sortSections p.d_rrs).Pairwise fun a b => a.d_place.index ≤ b.d_place.index :=
    pairwise_insertionSort _ _
  rw [← pairwise_map (f := fun rr : TextRR => rr.d_place)
    (R := fun a b : Place => a.index ≤ b.index)] at hsorted ⊢
  rw [hmap]
  exact hsorted

/-! ### Signing -/

/-- The name that is signed for. -/
def signedName (c : TextRR) : Octets := if c.wildcardname = [] then c.qname else c.wildcardname

/-- The keys: the ZSK, and for DNSKEY records also the KSK. -/
def keysFor (type : UInt16) : List Bool := if type = QType.DNSKEY then [false, true] else [false]

/-- The signature that `addSignature` makes behind the record `c`. -/
def signature (c : TextRR) (signer : Octets) (toSign : List TextRR) (ksk : Bool) : RRSIG where
  owner := c.qname
  name := signedName c
  signer := signer
  type := c.qtype
  ttl := c.ttl
  place := if c.qtype = QType.DNSKEY then .ANSWER else c.d_place
  ksk := ksk
  signed := toSign

/-- `addSignature`, behind the record `c`: what is left in `toSign`, and what has been written.
Without a signer the contents stay where they are. -/
def addSignature (env : WrapupEnv) (c : TextRR) (toSign : List TextRR) (items : List Emitted) :
    Option (List TextRR × List Emitted) :=
  if toSign = [] then some (toSign, items)
  else
    match env.getSignerFor (signedName c) with
    -- "No signer known"
    | none => some (toSign, items)
    | some signer =>
      -- without a ZSK `getDNSKEYFor` exits
      if env.activeZSKFor signer then
        some ([], items ++ (keysFor c.qtype).map fun ksk => .rrsig (signature c signer toSign ksk))
      else none

/-- The owner name or the type changes. -/
def differs (c rr : TextRR) : Bool := c.qtype ≠ rr.qtype || c.qname ≠ rr.qname

/-- Before the record `rr` is written, behind `last`: the signature over what was gathered. -/
def signPending (env : WrapupEnv) (last : Option TextRR) (rr : TextRR) (toSign : List TextRR)
    (items : List Emitted) : Option (List TextRR × List Emitted) :=
  match last with
  | some c => if differs c rr then addSignature env c toSign items else some (toSign, items)
  | none => some (toSign, items)

/-- What is done with the DO bit before the record `rr` is written. -/
def signBefore (env : WrapupEnv) (last : Option TextRR) (rr : TextRR) (toSign : List TextRR)
    (items : List Emitted) : Option (List TextRR × List Emitted) :=
  (signPending env last rr toSign items).map fun r => (gather DNSResourceRecord.auth r.1 rr, r.2)

/-- The last record of a zone transfer, which is not signed. -/
def closesTransfer (p : DNSPacket) (c : TextRR) : Bool :=
  p.d_tcp && c.qtype = QType.SOA && c.priority = 1234

/-- The last signature. Without a record `rbegin` is not there to be read. -/
def signLast (env : WrapupEnv) (p : DNSPacket) (last : Option TextRR) (toSign : List TextRR)
    (items : List Emitted) : Option (List TextRR × List Emitted) :=
  match last with
  | none => none
  | some c => if closesTransfer p c then some (toSign, items) else addSignature env c toSign items

/-- `addOpt`, when there is something to say. -/
def optItems (env : WrapupEnv) (p : DNSPacket) : List Emitted :=
  if opts env p ≠ [] ∨ p.d_dnssecOk = true then [.opt p.d_dnssecOk (opts env p)] else []

/-- What follows the last record. -/
def finish (env : WrapupEnv) (p : DNSPacket) (last : Option TextRR) (toSign : List TextRR)
    (items : List Emitted) : Option Wrapped :=
  (if p.d_dnssecOk then signLast env p last toSign items else some (toSign, items)).map fun r =>
    { items := r.2 ++ optItems env p, tc := false }

/-- `!d_tcp && pw.size() + 20 > getMaxReplyLen()`. -/
def tooLarge (env : WrapupEnv) (p : DNSPacket) (items : List Emitted) : Bool :=
  !p.d_tcp && decide (p.d_maxreplylen < env.size items % 65536 + 20)

/-- The loop over the records, which are written already as far as their contents go. -/
def writeRecords (env : WrapupEnv) (p : DNSPacket) :
    Option TextRR → List TextRR → List Emitted → List TextRR → Option Wrapped
  | last, toSign, items, [] => finish env p last toSign items
  | last, toSign, items, rr :: rest =>
    if !env.mastermake rr.qtype rr.content then none
    else
      match (if p.d_dnssecOk then signBefore env last rr toSign items else some (toSign, items)) with
      | none => none
      | some (toSign, items) =>
        if tooLarge env p (items ++ [.record rr]) then
          some { items := items, tc := decide (rr.d_place = .ANSWER) }
        else writeRecords env p (some rr) toSign (items ++ [.record rr]) rest

/-- `wrapup`; `none` stands for an exception, or the end of the program. -/
def wrapup (env : WrapupEnv) (p : DNSPacket) : Option Wrapped :=
  if p.d_rrs = [] ∧ opts env p = [] then some { items := [], tc := false }
  else writeRecords env p none [] [] (arranged env p)

end DNSPacket

/-! ### What is signed -/

/-- The records of the reply that were written. -/
def recordsOf (items : List Emitted) : List TextRR :=
  items.filterMap fun e => match e with
    | .record rr => some rr
    | _ => none

/-- The signatures that were written. -/
def signaturesOf (items : List Emitted) : List RRSIG :=
  items.filterMap fun e => match e with
    | .rrsig s => some s
    | _ => none

namespace DNSPacket

variable {env : WrapupEnv} {p : DNSPacket}

/-- Whether a signer is known behind the record `c`. -/
def signs (env : WrapupEnv) (c : TextRR) : Bool := (env.getSignerFor (signedName c)).isSome

/-- **Where signatures are made**: behind a record when the next one has another owner or type, or
there is none, and a signer is known. -/
def turnBehind (env : WrapupEnv) (p : DNSPacket) (c : TextRR) : Option TextRR → Turn
  | some next => if p.d_dnssecOk && differs c next && signs env c then .close else .stay
  | none => if p.d_dnssecOk && !closesTransfer p c && signs env c then .close else .drop

/-- Records with what happens behind them. -/
def turns (env : WrapupEnv) (p : DNSPacket) : List TextRR → List (TextRR × Turn)
  | [] => []
  | c :: rrs => (c, turnBehind env p c rrs.head?) :: turns env p rrs

/-- The signatures over a batch. -/
def signaturesFor (env : WrapupEnv) (b : List TextRR × TextRR) : List RRSIG :=
  (keysFor b.2.qtype).map (signature b.2 ((env.getSignerFor (signedName b.2)).getD []) b.1)

/-- The signatures over batches. -/
def batchSignatures (env : WrapupEnv) (bs : List (List TextRR × TextRR)) : List RRSIG :=
  bs.flatMap (signaturesFor env)

theorem recordsOf_append (a b : List Emitted) : recordsOf (a ++ b) = recordsOf a ++ recordsOf b :=
  filterMap_append

theorem signaturesOf_append (a b : List Emitted) :
    signaturesOf (a ++ b) = signaturesOf a ++ signaturesOf b :=
  filterMap_append

theorem signaturesOf_map_rrsig {ι : Type} (l : List ι) (f : ι → RRSIG) :
    signaturesOf (l.map fun i => .rrsig (f i)) = l.map f := by
  unfold signaturesOf
  rw [filterMap_map]
  exact congrFun filterMap_eq_map l

theorem recordsOf_map_rrsig {ι : Type} (l : List ι) (f : ι → RRSIG) :
    recordsOf (l.map fun i => .rrsig (f i)) = [] := by
  unfold recordsOf
  rw [filterMap_map]
  exact filterMap_eq_nil_iff.mpr fun _ _ => rfl

/-- The OPT record is none of the reply, and no signature. -/
theorem recordsOf_optItems : recordsOf (optItems env p) = [] := by
  unfold optItems
  split <;> rfl

theorem signaturesOf_optItems : signaturesOf (optItems env p) = [] := by
  unfold optItems
  split <;> rfl

/-- **What `addSignature` does** behind a record `c` with `acc` gathered before it: it closes the
batch when a signer is known. -/
theorem addSignature_spec {c : TextRR} {acc toSign' : List TextRR} {items items' : List Emitted}
    (h : addSignature env c (gather DNSResourceRecord.auth acc c) items = some (toSign', items')) :
    recordsOf items' = recordsOf items ∧
      ∀ l, signaturesOf items' ++
          batchSignatures env (batches DNSResourceRecord.auth toSign' l) =
        signaturesOf items ++
          batchSignatures env (batches DNSResourceRecord.auth acc
            ((c, if signs env c then .close else .stay) :: l)) := by
  unfold addSignature at h
  split at h
  next hnil =>
    obtain ⟨rfl, rfl⟩ := Prod.mk.inj (Option.some.inj h)
    refine ⟨rfl, fun l => ?_⟩
    split
    · rw [batches, hnil, isEmpty_nil, if_pos rfl]
    · rw [batches]
  next hne =>
    split at h
    next hnone =>
      obtain ⟨rfl, rfl⟩ := Prod.mk.inj (Option.some.inj h)
      refine ⟨rfl, fun l => ?_⟩
      have hsigns : signs env c = false := by
        unfold signs
        rw [hnone]
        rfl
      rw [hsigns, if_neg Bool.false_ne_true, batches]
    next signer hsigner =>
      split at h
      next =>
        obtain ⟨rfl, rfl⟩ := Prod.mk.inj (Option.some.inj h)
        have hsigns : signs env c = true := by
          unfold signs
          rw [hsigner]
          rfl
        refine ⟨?_, fun l => ?_⟩
        · rw [recordsOf_append, recordsOf_map_rrsig, append_nil]
        · rw [hsigns, if_pos rfl, batches, if_neg (by rwa [List.isEmpty_iff]), signaturesOf_append,
            signaturesOf_map_rrsig, append_assoc]
          unfold batchSignatures
          rw [flatMap_cons]
          unfold signaturesFor
          rw [hsigner]
          rfl
      next => cases h

/-! ### The loop -/

section Loop

variable {c rr : TextRR} {acc toSign' : List TextRR} {items items' : List Emitted}

theorem turns_take_succ (env : WrapupEnv) (p : DNSPacket) (c : TextRR) (rest : List TextRR)
    (k : Nat) :
    (turns env p (c :: rest)).take (k + 1) =
      (c, turnBehind env p c rest.head?) :: (turns env p rest).take k := rfl

theorem signPending_spec (hdo : p.d_dnssecOk = true)
    (h : signPending env (some c) rr (gather DNSResourceRecord.auth acc c) items =
      some (toSign', items')) :
    recordsOf items' = recordsOf items ∧
      ∀ l, signaturesOf items' ++
          batchSignatures env (batches DNSResourceRecord.auth toSign' l) =
        signaturesOf items ++
          batchSignatures env (batches DNSResourceRecord.auth acc
            ((c, turnBehind env p c (some rr)) :: l)) := by
  unfold signPending at h
  dsimp only at h
  unfold turnBehind
  dsimp only
  rw [hdo, Bool.true_and]
  split at h
  next hdiffers =>
    rw [hdiffers, Bool.true_and]
    exact addSignature_spec h
  next hsame =>
    obtain ⟨rfl, rfl⟩ := Prod.mk.inj (Option.some.inj h)
    rw [Bool.eq_false_of_not_eq_true hsame, Bool.false_and, if_neg Bool.false_ne_true]
    exact ⟨rfl, fun l => rfl⟩

theorem signLast_spec (hdo : p.d_dnssecOk = true)
    (h : signLast env p (some c) (gather DNSResourceRecord.auth acc c) items =
      some (toSign', items')) :
    recordsOf items' = recordsOf items ∧
      signaturesOf items' = signaturesOf items ++
        batchSignatures env (batches DNSResourceRecord.auth acc [(c, turnBehind env p c none)]) := by
  unfold signLast at h
  dsimp only at h
  unfold turnBehind
  rw [hdo, Bool.true_and]
  split at h
  next hcloses =>
    obtain ⟨rfl, rfl⟩ := Prod.mk.inj (Option.some.inj h)
    rw [hcloses, Bool.not_true, Bool.false_and, if_neg Bool.false_ne_true]
    exact ⟨rfl, (append_nil _).symm⟩
  next hopen =>
    obtain ⟨hrecords, hsignatures⟩ := addSignature_spec h
    have hlast := hsignatures []
    rw [show batchSignatures env (batches DNSResourceRecord.auth toSign' []) = [] from rfl,
      append_nil] at hlast
    refine ⟨hrecords, hlast.trans ?_⟩
    rw [Bool.eq_false_of_not_eq_true hopen, Bool.not_false, Bool.true_and]
    cases signs env c <;> rfl

/-- **The loop** behind a record `c` that is written, with `acc` gathered in front of it: it
writes the records up to some number, and the signatures over the batches of these. -/
theorem writeRecords_spec (hdo : p.d_dnssecOk = true) {rest : List TextRR} {out : Wrapped}
    (h : writeRecords env p (some c) (gather DNSResourceRecord.auth acc c) items rest = some out) :
    ∃ k ≤ rest.length, (p.d_tcp = true → k = rest.length) ∧
      recordsOf out.items = recordsOf items ++ rest.take k ∧
      signaturesOf out.items = signaturesOf items ++
        batchSignatures env (batches DNSResourceRecord.auth acc
          ((turns env p (c :: rest)).take (k + 1))) := by
  induction rest generalizing c acc items with
  | nil =>
    unfold writeRecords finish at h
    rw [if_pos hdo] at h
    obtain ⟨⟨toSign', items'⟩, hlast, rfl⟩ := Option.map_eq_some_iff.mp h
    obtain ⟨hrecords, hsignatures⟩ := signLast_spec hdo hlast
    refine ⟨0, Nat.le_refl _, fun _ => rfl, ?_, ?_⟩
    · dsimp only
      rw [recordsOf_append, recordsOf_optItems, hrecords]
      rfl
    · dsimp only
      rw [signaturesOf_append, signaturesOf_optItems, append_nil, hsignatures]
      rfl
  | cons rr rest ih =>
    unfold writeRecords at h
    split at h
    next => cases h
    split at h
    next => cases h
    next toSign' items' hsign =>
      obtain ⟨⟨toSign, items₁⟩, hpending, heq⟩ := Option.map_eq_some_iff.mp hsign
      obtain ⟨rfl, rfl⟩ := Prod.mk.inj heq
      obtain ⟨hrecords, hsignatures⟩ := signPending_spec hdo hpending
      split at h
      next hlarge =>
        -- the record is rolled back, the signature in front of it is not
        obtain rfl := Option.some.inj h
        refine ⟨0, Nat.zero_le _, fun htcp => ?_, ?_, ?_⟩
        · unfold tooLarge at hlarge
          rw [htcp] at hlarge
          cases hlarge
        · dsimp only
          rw [hrecords, take_zero, append_nil]
        · have hlast := hsignatures []
          rw [show batchSignatures env (batches DNSResourceRecord.auth toSign []) = [] from rfl,
            append_nil] at hlast
          exact hlast
      next =>
        obtain ⟨k, hk, htcp, hrec, hsig⟩ := ih h
        refine ⟨k + 1, Nat.succ_le_succ hk, fun ht => by rw [htcp ht]; rfl, ?_, ?_⟩
        · rw [hrec, recordsOf_append, hrecords, append_assoc]
          rfl
        · rw [hsig, signaturesOf_append, turns_take_succ env p c]
          have hstep := hsignatures ((turns env p (rr :: rest)).take (k + 1))
          rw [show signaturesOf [Emitted.record rr] = [] from rfl, append_nil]
          exact hstep

end Loop

/-- **What a reply is signed with**: it has the records up to some number, all of them over TCP,
and the signatures over the batches of these. -/
theorem wrapup_signatures (hdo : p.d_dnssecOk = true) {out : Wrapped}
    (h : wrapup env p = some out) :
    ∃ n ≤ (arranged env p).length, (p.d_tcp = true → n = (arranged env p).length) ∧
      recordsOf out.items = (arranged env p).take n ∧
      signaturesOf out.items =
        batchSignatures env (batches DNSResourceRecord.auth []
          ((turns env p (arranged env p)).take n)) := by
  unfold wrapup at h
  split at h
  next hnone =>
    obtain rfl := Option.some.inj h
    rw [arranged_eq_nil.mpr hnone.1]
    exact ⟨0, Nat.le_refl _, fun _ => rfl, rfl, rfl⟩
  next =>
    cases hrrs : arranged env p with
    | nil =>
      -- the last record is read, and there is none
      rw [hrrs] at h
      unfold writeRecords finish at h
      rw [if_pos hdo] at h
      cases h
    | cons rr rest =>
      rw [hrrs] at h
      unfold writeRecords at h
      split at h
      next => cases h
      unfold signBefore signPending at h
      dsimp only [Option.map_some] at h
      split at h
      next hlarge =>
        obtain rfl := Option.some.inj h
        refine ⟨0, Nat.zero_le _, fun htcp => ?_, rfl, rfl⟩
        unfold tooLarge at hlarge
        rw [htcp] at hlarge
        cases hlarge
      next =>
        obtain ⟨k, hk, htcp, hrec, hsig⟩ := writeRecords_spec hdo h
        exact ⟨k + 1, Nat.succ_le_succ hk, fun ht => by rw [htcp ht]; rfl, hrec, hsig⟩

end DNSPacket

end PowerDNS
