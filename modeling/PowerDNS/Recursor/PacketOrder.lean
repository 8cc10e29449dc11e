import PowerDNS.Recursor.PacketID
import PowerDNS.Recursor.RecursorPacketCache

/-!
# Which packets are the same to the packet cache: `Entry::operator<`

The container of the packet cache is ordered by `Entry::operator<`, and finds an entry when
neither it nor the query is less than the other. The comparison first looks at the header, and
says `true` when the first packet is less there; otherwise it goes on to the question, also when
the first packet is greater in the header.

So packets that are the same to the cache have the same question (`same_question`), and what is
found is an answer to the question that was asked (`hit_same_question`). But the comparison is an
order on a set of packets only if header and question never say the opposite of each other
(`entryLess_order_iff`).
-/

namespace PowerDNS

open OrderedUnique GuardedRun List UInt8 Bool

namespace RecursorPacketCache

/-! ### Questions -/

/-- The question of a packet; type and class are octets. -/
structure PacketQuestion where
  labels : List Octets
  qtype : UInt8 × UInt8
  qclass : UInt8 × UInt8
  deriving DecidableEq

/-- The labels up to the empty one, and what is behind it. -/
def readLabels : Nat → Octets → Option (List Octets × Octets)
  | 0, _ => none
  | _ + 1, [] => none
  | fuel + 1, len :: rest =>
    if len = 0 then some ([], rest)
    else if rest.length < len.toNat then none
    else (readLabels fuel (rest.drop len.toNat)).map fun r => (rest.take len.toNat :: r.1, r.2)

/-- The question behind the header, if it is well formed. -/
def questionOf (packet : Octets) : Option PacketQuestion :=
  if packet.length < 12 then none
  else
    match readLabels packet.length (packet.drop 12) with
    | some (labels, t₁ :: t₀ :: c₁ :: c₀ :: _) => some ⟨labels, (t₁, t₀), (c₁, c₀)⟩
    | _ => none

/-- Two packets have the same question: the header agrees in what matters, and the names are the
same but for letter case. -/
structure SameQuestion (a b : Octets) : Prop where
  header : headerKey a = headerKey b
  question : ∃ p q, questionOf a = some p ∧ questionOf b = some q ∧
    lowerLabels p.labels = lowerLabels q.labels ∧ p.qtype = q.qtype ∧ p.qclass = q.qclass

/-! ### The orders that are combined -/

/-- `char`s, which are signed. -/
def signedLess (a b : UInt8) : Bool := decide (a.toInt8.toInt < b.toInt8.toInt)

instance : StrictWeakOrder signedLess where
  asymm := by
    intro a b h
    simp only [signedLess, decide_eq_true_eq, decide_eq_false_iff_not] at h ⊢
    omega
  neg_trans := by
    intro a c h b
    simp only [signedLess, decide_eq_true_eq] at h ⊢
    omega

theorem same_signedLess (a b : UInt8) : same signedLess a b = true ↔ id a = id b := by
  rw [same_iff]
  simp only [signedLess, decide_eq_false_iff_not, id]
  constructor
  · intro h
    have hint : a.toInt8.toInt = b.toInt8.toInt := by omega
    have h8 := congrArg Int8.toUInt8 (Int8.toInt_inj.mp hint)
    rwa [toUInt8_toInt8, toUInt8_toInt8] at h8
  · rintro rfl
    omega

/-- The number that `dnspacketLessThan` makes of two octets. -/
def signedPair (p : UInt8 × UInt8) : UInt16 :=
  UInt16.ofInt (p.1.toInt8.toInt * 256 + p.2.toInt8.toInt)

/-- The order of questions. -/
def questionLess : PacketQuestion → PacketQuestion → Bool :=
  lexThen (onPart (lexList (lexList signedLess)) PacketQuestion.labels)
    (lexThen (onPart idLess fun q => signedPair q.qtype)
      (onPart idLess fun q => signedPair q.qclass))

instance : StrictWeakOrder questionLess :=
  inferInstanceAs (StrictWeakOrder (lexThen _ (lexThen _ _)))

theorem headerLess_eq : headerLess =
    lexThen (onPart natLess fun p => (headerKey p).1)
      (lexThen (onPart natLess fun p => (headerKey p).2.1)
        (onPart natLess fun p => (headerKey p).2.2)) := by
  funext a b
  rw [Bool.eq_iff_iff]
  simp only [headerLess, lexThen_eq_true, onPart, natLess, decide_eq_true_eq,
    decide_eq_false_iff_not]
  omega

instance : StrictWeakOrder headerLess := by
  rw [headerLess_eq]
  infer_instance

/-! ### The comparison of two questions -/

variable {packet rest : Octets}

/-- An octet, found by its position or at the head of what is left. -/
theorem boundsChecked_drop {pos : Nat} {c : UInt8}
    (h : packet.drop pos = c :: rest) :
    boundsChecked packet pos = some c ∧ packet.drop (pos + 1) = rest := by
  constructor
  · have hget := congrArg (fun l => l[0]?) h
    simpa [boundsChecked] using hget
  · have hdrop := congrArg (List.drop 1) h
    simpa [drop_drop] using hdrop

/-- The first difference of two texts, 0 when one begins with the other. -/
def firstDifference : Octets → Octets → Int
  | x :: xs, y :: ys =>
    if x.toInt8.toInt - y.toInt8.toInt ≠ 0 then x.toInt8.toInt - y.toInt8.toInt
    else firstDifference xs ys
  | _, _ => 0

variable {a b : Octets}

/-- The loop over the octets of two labels. -/
theorem compareLabels_eq (x y : Octets) {ra rb : Octets} {aPos bPos : Nat}
    (ha : a.drop aPos = x ++ ra) (hb : b.drop bPos = y ++ rb) :
    compareLabels a b (min x.length y.length) aPos bPos = some (firstDifference x y) := by
  induction x generalizing y aPos bPos with
  | nil =>
    rfl
  | cons c x ih =>
    cases y with
    | nil => rfl
    | cons d y =>
      obtain ⟨hc, hx⟩ := boundsChecked_drop ha
      obtain ⟨hd, hy⟩ := boundsChecked_drop hb
      rw [length_cons, length_cons, Nat.add_min_add_right]
      unfold compareLabels firstDifference
      rw [hc, hd]
      dsimp only [Option.bind_eq_bind, Option.bind_some]
      split
      · rfl
      · exact ih y hx hy

/-- The first difference decides, and then the length. -/
theorem lexList_signedLess_iff (x y : Octets) :
    lexList signedLess x y = true ↔
      firstDifference x y < 0 ∨ firstDifference x y = 0 ∧ x.length < y.length := by
  induction x generalizing y with
  | nil => cases y <;> simp [lexList, firstDifference]
  | cons c x ih =>
    cases y with
    | nil => simp [lexList, firstDifference]
    | cons d y =>
      unfold lexList firstDifference
      simp only [signedLess, decide_eq_true_eq]
      by_cases heq : c.toInt8.toInt = d.toInt8.toInt
      · have hsame : ¬c.toInt8.toInt - d.toInt8.toInt ≠ 0 := by omega
        rw [if_neg hsame, if_neg (by omega), if_neg (by omega), ih]
        simp
      · have hdiffer : c.toInt8.toInt - d.toInt8.toInt ≠ 0 := by omega
        by_cases hlt : c.toInt8.toInt < d.toInt8.toInt
        · rw [if_pos hlt]
          exact iff_of_true rfl (.inl (by omega))
        · rw [if_neg hlt, if_pos (by omega)]
          exact iff_of_false false_ne_true (by omega)

theorem firstDifference_swap (x y : Octets) : firstDifference y x = -firstDifference x y := by
  induction x generalizing y with
  | nil => cases y <;> rfl
  | cons c x ih =>
    cases y with
    | nil => rfl
    | cons d y =>
      unfold firstDifference
      by_cases heq : c.toInt8.toInt = d.toInt8.toInt
      · rw [if_neg (by omega), if_neg (by omega), ih]
      · rw [if_pos (by omega), if_pos (by omega)]
        omega

/-- The number at a position is made of the two octets there. -/
theorem signedInt16_drop {pos : Nat} {c d : UInt8}
    (h : packet.drop pos = c :: d :: rest) : signedInt16 packet pos = some (signedPair (c, d)) := by
  obtain ⟨hc, hrest⟩ := boundsChecked_drop h
  obtain ⟨hd, -⟩ := boundsChecked_drop hrest
  unfold signedInt16
  rw [hc, hd]
  rfl

/-- Reading labels goes as far as the first label, and then on behind it. -/
theorem readLabels_cases {fuel : Nat} {labels : List Octets}
    (h : readLabels fuel packet = some (labels, rest)) :
    ∃ fuel' len behind, fuel = fuel' + 1 ∧ packet = len :: behind ∧
      (len = 0 ∧ labels = [] ∧ rest = behind ∨
        len ≠ 0 ∧ ∃ label labels' behind', behind = label ++ behind' ∧ label.length = len.toNat ∧
          labels = label :: labels' ∧ readLabels fuel' behind' = some (labels', rest)) := by
  cases fuel with
  | zero => cases h
  | succ fuel =>
    cases packet with
    | nil => cases h
    | cons len behind =>
      refine ⟨fuel, len, behind, rfl, rfl, ?_⟩
      unfold readLabels at h
      split at h
      next hzero =>
        obtain ⟨rfl, rfl⟩ := Prod.mk.inj (Option.some.inj h)
        exact .inl ⟨hzero, rfl, rfl⟩
      next hlen =>
        split at h
        next => cases h
        next hroom =>
          obtain ⟨⟨labels', rest'⟩, hread, heq⟩ := Option.map_eq_some_iff.mp h
          obtain ⟨rfl, rfl⟩ := Prod.mk.inj heq
          refine .inr ⟨hlen, _, labels', _, (take_append_drop len.toNat behind).symm, ?_,
            rfl, hread⟩
          rw [length_take]
          omega

/-- **The comparison of two questions** is the one of their labels, types and classes. -/
theorem questionLessThan_eq {la lb : List Octets} {ra rb : Octets}
    {t₁ t₀ c₁ c₀ u₁ u₀ d₁ d₀ : UInt8} {n m fuel aPos bPos : Nat}
    (ha : readLabels n (a.drop aPos) = some (la, t₁ :: t₀ :: c₁ :: c₀ :: ra))
    (hb : readLabels m (b.drop bPos) = some (lb, u₁ :: u₀ :: d₁ :: d₀ :: rb))
    (hfuel : la.length < fuel) :
    questionLessThan a b fuel aPos bPos =
      some (questionLess ⟨la, (t₁, t₀), (c₁, c₀)⟩ ⟨lb, (u₁, u₀), (d₁, d₀)⟩) := by
  induction fuel generalizing la lb n m aPos bPos with
  | zero => omega
  | succ fuel ih =>
    obtain ⟨n, alen, abehind, rfl, hadrop, hacases⟩ := readLabels_cases ha
    obtain ⟨m, blen, bbehind, rfl, hbdrop, hbcases⟩ := readLabels_cases hb
    obtain ⟨haget, hanext⟩ := boundsChecked_drop hadrop
    obtain ⟨hbget, hbnext⟩ := boundsChecked_drop hbdrop
    unfold questionLessThan
    rw [haget, hbget]
    dsimp only [Option.bind_eq_bind, Option.bind_some]
    unfold questionLess lexThen onPart
    rcases hacases with ⟨rfl, rfl, rfl⟩ | ⟨hane, x, la', abehind', rfl, hxlen, rfl, haread⟩
    · rcases hbcases with ⟨rfl, rfl, rfl⟩ | ⟨hbne, y, lb', bbehind', rfl, hylen, rfl, hbread⟩
      · -- the names are the same, up to their ends
        have haclass := signedInt16_drop (boundsChecked_drop (boundsChecked_drop hanext).2).2
        have hbclass := signedInt16_drop (boundsChecked_drop (boundsChecked_drop hbnext).2).2
        rw [signedInt16_drop hanext, signedInt16_drop hbnext, haclass, hbclass]
        refine congrArg some ?_
        simp only [lexList, idLess, false_eq_true, if_false, decide_eq_true_eq]
        by_cases hlt : signedPair (t₁, t₀) < signedPair (u₁, u₀)
        · simp [hlt]
        · by_cases hgt : signedPair (u₁, u₀) < signedPair (t₁, t₀)
          · have hne : signedPair (t₁, t₀) ≠ signedPair (u₁, u₀) := fun heq => by
              rw [heq] at hgt
              exact UInt16.lt_irrefl _ hgt
            simp [hlt, hgt, hne]
          · have heq : signedPair (t₁, t₀) = signedPair (u₁, u₀) :=
              UInt16.le_antisymm (UInt16.not_lt.mp hgt) (UInt16.not_lt.mp hlt)
            simp [heq]
      · -- the first name ends
        have hblen : 0 < blen := UInt8.pos_iff_ne_zero.mpr hbne
        have hcompare : compareLabels a b (min (0 : UInt8).toNat blen.toNat) (aPos + 1) (bPos + 1)
            = some 0 := by
          rfl
        rw [hcompare]
        simp [lexList, hblen]
    · rcases hbcases with ⟨rfl, rfl, rfl⟩ | ⟨hbne, y, lb', bbehind', rfl, hylen, rfl, hbread⟩
      · -- the second name ends
        have halen : 0 < alen := UInt8.pos_iff_ne_zero.mpr hane
        have hcompare : compareLabels a b (min alen.toNat (0 : UInt8).toNat) (aPos + 1) (bPos + 1)
            = some 0 := by
          rw [show (0 : UInt8).toNat = 0 from rfl, Nat.min_zero]
          rfl
        rw [hcompare]
        simp [lexList, halen]
      · have hcompare : compareLabels a b (min alen.toNat blen.toNat) (aPos + 1) (bPos + 1)
            = some (firstDifference x y) := by
          rw [← hxlen, ← hylen]
          exact compareLabels_eq x y hanext hbnext
        have hless := lexList_signedLess_iff x y
        have hgreater := lexList_signedLess_iff y x
        rw [firstDifference_swap] at hgreater
        rw [hcompare]
        dsimp only [Option.bind_some]
        rw [hxlen, hylen, ← UInt8.lt_iff_toNat_lt] at hless
        rw [hxlen, hylen, ← UInt8.lt_iff_toNat_lt] at hgreater
        have hlabels : ∀ {r s}, lexList signedLess x y = r → lexList signedLess y x = s →
            lexList (lexList signedLess) (x :: la') (y :: lb') =
                (if r then true else if s then false else lexList (lexList signedLess) la' lb') ∧
              lexList (lexList signedLess) (y :: lb') (x :: la') =
                if s then true else if r then false else lexList (lexList signedLess) lb' la' := by
          rintro r s rfl rfl
          exact ⟨rfl, rfl⟩
        by_cases hneg : firstDifference x y < 0
        · obtain ⟨h₁, -⟩ := hlabels (hless.mpr (.inl hneg)) rfl
          rw [if_pos hneg, h₁]
          rfl
        rw [if_neg hneg]
        by_cases hpos : 0 < firstDifference x y
        · have hxy : lexList signedLess x y = false := by
            rw [← not_eq_true, hless]
            omega
          obtain ⟨h₁, h₂⟩ := hlabels hxy (hgreater.mpr (.inl (by omega)))
          rw [if_pos hpos, h₁, h₂]
          rfl
        rw [if_neg hpos]
        have hzero : firstDifference x y = 0 := by omega
        by_cases hshort : alen < blen
        · obtain ⟨h₁, -⟩ := hlabels (hless.mpr (.inr ⟨hzero, hshort⟩)) rfl
          rw [if_pos hshort, h₁]
          rfl
        rw [if_neg hshort]
        have hxy : lexList signedLess x y = false := by
          rw [← not_eq_true, hless]
          exact fun h => h.elim hneg fun h => hshort h.2
        by_cases hlong : blen < alen
        · obtain ⟨h₁, h₂⟩ := hlabels hxy (hgreater.mpr (.inr ⟨by omega, hlong⟩))
          rw [if_pos hlong, h₁, h₂]
          rfl
        -- the labels are the same, and the rest decides
        have hyx : lexList signedLess y x = false := by
          rw [← not_eq_true, hgreater]
          exact fun h => h.elim (by omega) fun h => hlong h.2
        obtain ⟨h₁, h₂⟩ := hlabels hxy hyx
        rw [if_neg hlong, if_pos hane, h₁, h₂]
        have hafter : a.drop (aPos + 1 + alen.toNat) = abehind' := by
          rw [← drop_drop, hanext, ← hxlen, drop_left]
        have hbfter : b.drop (bPos + 1 + blen.toNat) = bbehind' := by
          rw [← drop_drop, hbnext, ← hylen, drop_left]
        rw [← hafter] at haread
        rw [← hbfter] at hbread
        exact ih haread hbread (by simpa using hfuel)

theorem readLabels_length {fuel : Nat} {labels : List Octets}
    (h : readLabels fuel packet = some (labels, rest)) : labels.length < fuel := by
  induction fuel generalizing packet labels with
  | zero => cases h
  | succ fuel ih =>
    obtain ⟨fuel', len, behind, hfuel, -, ⟨-, rfl, -⟩ | ⟨-, label, labels', behind', -, -, rfl, hread⟩⟩ :=
      readLabels_cases h
    · exact Nat.succ_pos fuel
    · obtain rfl := Nat.succ.inj hfuel
      exact Nat.succ_lt_succ (ih hread)

/-- A packet with a question has a header, and the question behind it. -/
theorem questionOf_eq_some {packet : Octets} {q : PacketQuestion} (h : questionOf packet = some q) :
    ¬packet.length < 12 ∧ ∃ rest, readLabels packet.length (packet.drop 12) =
      some (q.labels, q.qtype.1 :: q.qtype.2 :: q.qclass.1 :: q.qclass.2 :: rest) := by
  unfold questionOf at h
  split at h
  next => cases h
  next hlong =>
    split at h
    next labels t₁ t₀ c₁ c₀ rest hread =>
      obtain rfl := Option.some.inj h
      exact ⟨hlong, rest, hread⟩
    next => cases h

variable {p q : PacketQuestion}

/-- **`dnspacketLessThan`** compares the questions. -/
theorem dnspacketLessThan_eq (ha : questionOf a = some p)
    (hb : questionOf b = some q) : dnspacketLessThan a b = some (questionLess p q) := by
  obtain ⟨halong, ra, haread⟩ := questionOf_eq_some ha
  obtain ⟨hblong, rb, hbread⟩ := questionOf_eq_some hb
  unfold dnspacketLessThan
  rw [if_neg (by rintro (h | h) <;> [exact halong h; exact hblong h])]
  exact questionLessThan_eq haread hbread (Nat.lt_succ_of_lt (readLabels_length haread))

/-- **`Entry::operator<`** is two orders at once. -/
theorem entryLess_eq (ha : questionOf a = some p)
    (hb : questionOf b = some q) :
    entryLess a b = some (headerLess a b || questionLess p q) := by
  unfold entryLess
  rw [dnspacketLessThan_eq ha hb]
  cases headerLess a b <;> rfl

/-! ### The same question -/

/-- Both numbers are made of two octets, without loss. -/
theorem signedPair_inj {p q : UInt8 × UInt8} (h : signedPair p = signedPair q) : p = q := by
  have hofInt : ∀ x : Int, (UInt16.ofInt x).toNat = (x % 65536).toNat % 65536 :=
    fun x => UInt16.toNat_ofNat'
  have hmod := congrArg UInt16.toNat h
  unfold signedPair at hmod
  rw [hofInt, hofInt] at hmod
  have h₁ := p.1.toInt8.toInt_lt
  have h₂ := p.2.toInt8.toInt_lt
  have h₃ := q.1.toInt8.toInt_lt
  have h₄ := q.2.toInt8.toInt_lt
  have h₅ := p.1.toInt8.le_toInt
  have h₆ := p.2.toInt8.le_toInt
  have h₇ := q.1.toInt8.le_toInt
  have h₈ := q.2.toInt8.le_toInt
  have hhigh : p.1.toInt8.toInt = q.1.toInt8.toInt := by omega
  have hlow : p.2.toInt8.toInt = q.2.toInt8.toInt := by omega
  have hback : ∀ {x y : UInt8}, x.toInt8.toInt = y.toInt8.toInt → x = y := by
    intro x y hxy
    have h8 := congrArg Int8.toUInt8 (Int8.toInt_inj.mp hxy)
    rwa [toUInt8_toInt8, toUInt8_toInt8] at h8
  exact Prod.ext (hback hhigh) (hback hlow)

/-- Questions are the same to the comparison when they are the same. -/
theorem same_questionLess : same questionLess p q = true ↔ p = q := by
  have hlabels : ∀ a b, same (lexList signedLess) a b = true ↔ id a = id b := by
    intro a b
    rw [same_lexList same_signedLess]
    simp
  unfold questionLess
  rw [same_lexThen, same_lexThen]
  constructor
  · rintro ⟨hl, ht, hc⟩
    have hl' := (same_lexList hlabels).mp hl
    rw [map_id, map_id] at hl'
    have ht' := signedPair_inj (same_idLess.mp ht)
    have hc' := signedPair_inj (same_idLess.mp hc)
    cases p
    cases q
    congr
  · rintro rfl
    exact ⟨same_refl _, same_refl _, same_refl _⟩

theorem same_headerLess : same headerLess a b = true ↔ headerKey a = headerKey b := by
  rw [headerLess_eq, same_lexThen, same_lexThen]
  constructor
  · rintro ⟨h₁, h₂, h₃⟩
    exact Prod.ext (same_natLess.mp h₁) (Prod.ext (same_natLess.mp h₂) (same_natLess.mp h₃))
  · intro h
    exact ⟨same_natLess.mpr (congrArg (fun key => key.1) h),
      same_natLess.mpr (congrArg (fun key => key.2.1) h),
      same_natLess.mpr (congrArg (fun key => key.2.2) h)⟩

/-- **Packets that are the same to the cache** have the same question. -/
theorem same_question (ha : (questionOf a).isSome) (hb : (questionOf b).isSome)
    (hab : entryLess a b = some false) (hba : entryLess b a = some false) : SameQuestion a b := by
  obtain ⟨p, hp⟩ := Option.isSome_iff_exists.mp ha
  obtain ⟨q, hq⟩ := Option.isSome_iff_exists.mp hb
  rw [entryLess_eq hp hq, Option.some.injEq, or_eq_false_iff] at hab
  rw [entryLess_eq hq hp, Option.some.injEq, or_eq_false_iff] at hba
  obtain rfl : p = q := same_questionLess.mp (same_iff.mpr ⟨hab.2, hba.2⟩)
  exact ⟨same_headerLess.mp (same_iff.mpr ⟨hab.1, hba.1⟩), p, p, hp, hq, rfl, rfl, rfl⟩

/-! ### When it is an order -/

/-- `Entry::operator<` on packets of a set. -/
def lessOn (S : Set Octets) (a b : S) : Bool := entryLess a.1 b.1 == some true

/-- **The comparison is an order** on a set of packets with well-formed questions if and only if
no packet is less than another in the header and greater in the question. -/
theorem entryLess_order_iff {S : Set Octets} (hS : ∀ p ∈ S, (questionOf p).isSome) :
    StrictWeakOrder (lessOn S) ↔
      ∀ a ∈ S, ∀ b ∈ S, headerLess a b = true → dnspacketLessThan b a = some false := by
  have hquestion : ∀ a : S, ∃ q, questionOf a.1 = some q :=
    fun a => Option.isSome_iff_exists.mp (hS a.1 a.2)
  choose question hq using hquestion
  have heq : lessOn S =
      eitherLess (onPart headerLess Subtype.val) (onPart questionLess question) := by
    funext a b
    unfold lessOn eitherLess onPart
    rw [entryLess_eq (hq a) (hq b)]
    cases headerLess a.1 b.1 || questionLess (question a) (question b) <;> rfl
  rw [heq, strictWeakOrder_eitherLess_iff]
  constructor
  · intro h a ha b hb hless
    rw [dnspacketLessThan_eq (hq ⟨b, hb⟩) (hq ⟨a, ha⟩)]
    exact congrArg some (h ⟨a, ha⟩ ⟨b, hb⟩ hless)
  · intro h a b hless
    have hpacket := h a.1 a.2 b.1 b.2 hless
    rw [dnspacketLessThan_eq (hq b) (hq a)] at hpacket
    exact Option.some.inj hpacket

/-! ### Histories -/

variable {T : Type} (k : PacketContainer T)

/-- A call of the cache, with any packet. -/
inductive PacketOp
  | insertResponsePacket (responsePacket : Octets) (now : Nat) (ttl : UInt32)
  | getResponsePacket (queryPacket : Octets) (now : Nat)

/-- The cache, and the packets that were stored. -/
structure PacketHistory (T : Type) where
  d_packetCache : T
  stored : List Octets := []

namespace PacketHistory

/-- One call. What throws leaves the cache as it is. -/
def step (s : PacketHistory T) : PacketOp → PacketHistory T
  | .insertResponsePacket packet now ttl =>
    match insertResponsePacket k s.d_packetCache packet now ttl with
    | some c => { d_packetCache := c, stored := s.stored ++ [packet] }
    | none => s
  | .getResponsePacket query now =>
    match getResponsePacket k s.d_packetCache query now with
    | some (c, _) => { s with d_packetCache := c }
    | none => s

/-- The cache at the beginning. -/
def initial : PacketHistory T := { d_packetCache := k.empty }

/-- What is stored has a well-formed question. -/
def StoresQuestion (_ : PacketHistory T) : PacketOp → Prop
  | .insertResponsePacket packet _ _ => (questionOf packet).isSome
  | .getResponsePacket _ _ => True

/-- Every entry is a packet that was stored, and has a well-formed question. -/
def AllAsked (s : PacketHistory T) : Prop :=
  ∀ e ∈ k.items s.d_packetCache, e.d_packet ∈ s.stored ∧ (questionOf e.d_packet).isSome

variable {k}

theorem step_allAsked (s : PacketHistory T) (op : PacketOp) (hI : AllAsked k s)
    (hok : StoresQuestion s op) : AllAsked k (step k s op) := by
  cases op with
  | insertResponsePacket packet now ttl =>
    unfold step
    dsimp only
    split
    next c hinsert =>
      intro e he
      rcases CacheRun.mem_insertResponsePacket hinsert he with he | rfl
      · exact ⟨mem_append_left _ (hI e he).1, (hI e he).2⟩
      · exact ⟨mem_append_right _ mem_cons_self, hok⟩
    next => exact hI
  | getResponsePacket query now =>
    unfold step
    dsimp only
    split
    next c _ hget => exact fun e he => hI e (CacheRun.mem_getResponsePacket hget he)
    next => exact hI

/-- **What is found** was stored for the same question, in every history. -/
theorem hit_same_question
    (hfind : ∀ {c q e}, k.find c q = some (some e) →
      entryLess e.d_packet q = some false ∧ entryLess q e.d_packet = some false)
    {ops : List PacketOp} (hops : Guarded (step k) StoresQuestion (initial k) ops)
    {query : Octets} {now : Nat} {c : T} {response : Octets} {age : UInt32}
    (hquery : (questionOf query).isSome)
    (hhit : getResponsePacket k (run (step k) (initial k) ops).d_packetCache query now =
      some (c, some (response, age))) :
    ∃ packet ∈ (run (step k) (initial k) ops).stored, SameQuestion packet query ∧
      response = query.getD 0 0 :: query.getD 1 0 :: packet.drop 2 := by
  have hempty : AllAsked k (initial k) := by
    intro e he
    change e ∈ k.items k.empty at he
    rw [k.items_empty] at he
    cases he
  have hall := run_invariant step_allAsked hempty hops
  rcases CacheRun.getResponsePacket_cases hhit with ⟨-, hnone⟩ | ⟨e, hfound, ⟨-, -, hresponse⟩ | ⟨-, hnone⟩⟩
  · cases hnone
  · obtain ⟨hmem, hasked⟩ := hall e (k.mem_of_find hfound)
    obtain ⟨hless, hgreater⟩ := hfind hfound
    exact ⟨e.d_packet, hmem, same_question hasked hquery hless hgreater,
      (Prod.mk.inj (Option.some.inj hresponse)).1⟩
  · cases hnone

end PacketHistory

/-! ### The comparison and the cache together -/

/-- **The keys of the packet cache.** On a set of packets with well-formed questions the
comparison is an order if and only if header and question never say the opposite of each other.
Packets that are the same to it have the same question, and whatever is found was stored for the
question that was asked, in every container that finds only what is the same. -/
theorem packet_cache_keyed (S : Set Octets) (hS : ∀ p ∈ S, (questionOf p).isSome) :
    (StrictWeakOrder (lessOn S) ↔
      ∀ a ∈ S, ∀ b ∈ S, headerLess a b = true → dnspacketLessThan b a = some false) ∧
    (∀ a b, (questionOf a).isSome → (questionOf b).isSome → entryLess a b = some false →
      entryLess b a = some false → SameQuestion a b) ∧
    ∀ (T : Type) (k : PacketContainer T),
      (∀ c q e, k.find c q = some (some e) →
        entryLess e.d_packet q = some false ∧ entryLess q e.d_packet = some false) →
      ∀ (ops : List PacketOp) (query : Octets) (now : Nat) (c : T) (response : Octets) (age : UInt32),
        Guarded (PacketHistory.step k) PacketHistory.StoresQuestion (PacketHistory.initial k) ops →
        (questionOf query).isSome →
        getResponsePacket k (run (PacketHistory.step k) (PacketHistory.initial k) ops).d_packetCache
          query now = some (c, some (response, age)) →
        ∃ packet ∈ (run (PacketHistory.step k) (PacketHistory.initial k) ops).stored,
          SameQuestion packet query ∧
            response = query.getD 0 0 :: query.getD 1 0 :: packet.drop 2 :=
  ⟨entryLess_order_iff hS, fun _ _ ha hb hab hba => same_question ha hb hab hba,
    fun _ _ hfind _ _ _ _ _ _ hops hquery hhit =>
      PacketHistory.hit_same_question (fun h => hfind _ _ _ h) hops hquery hhit⟩

/-! ### Three queries -/

/-- A query for the address of a name of one octet. -/
def queryFor (flags name : UInt8) : Octets :=
  [0x12, 0x34, flags, 0, 0, 1, 0, 0, 0, 0, 0, 0, 1, name, 0, 0, 1, 0, 1]

/-- Queries that differ in the name only are in order, and one finds what was stored for it. -/
theorem queries_in_order :
    StrictWeakOrder (lessOn {p | p = queryFor 1 97 ∨ p = queryFor 1 98}) ∧
    ∃ packet ∈ (run (PacketHistory.step CacheRun.listContainer)
        (PacketHistory.initial CacheRun.listContainer)
        [.insertResponsePacket (queryFor 1 97) 100 60]).stored,
      SameQuestion packet (queryFor 1 97) := by
  have hquestions : ∀ p ∈ {p | p = queryFor 1 97 ∨ p = queryFor 1 98}, (questionOf p).isSome := by
    rintro p (rfl | rfl) <;> decide
  constructor
  · refine (packet_cache_keyed _ hquestions).1.mpr ?_
    rintro a (rfl | rfl) b (rfl | rfl) <;> decide
  · have hfind : ∀ c q e, CacheRun.listContainer.find c q = some (some e) →
        entryLess e.d_packet q = some false ∧ entryLess q e.d_packet = some false := by
      intro c q e h
      have hsome := find?_some (Option.some.inj h)
      exact of_decide_eq_true hsome
    obtain ⟨packet, hmem, hsame, -⟩ := (packet_cache_keyed _ hquestions).2.2 (List Entry)
      CacheRun.listContainer hfind [.insertResponsePacket (queryFor 1 97) 100 60] (queryFor 1 97)
      110 _ _ _
      ⟨by change (questionOf (queryFor 1 97)).isSome = true; decide, trivial⟩
      (by decide) rfl
    exact ⟨packet, hmem, hsame⟩

/-- **No order**: without recursion desired the name `b` is less than with it the name `a`, and
also greater. -/
theorem queries_both_less :
    ¬StrictWeakOrder (lessOn {p | (questionOf p).isSome}) := by
  intro h
  have hboth := @StrictWeakOrder.asymm _ _ h ⟨queryFor 0 98, by decide⟩
    ⟨queryFor 1 97, by decide⟩ (by decide)
  revert hboth
  decide

end RecursorPacketCache

end PowerDNS
