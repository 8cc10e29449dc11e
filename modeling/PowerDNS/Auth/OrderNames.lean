import Mathlib.Data.List.Lex
import PowerDNS.Base.Octets
import PowerDNS.Lib.CyclicChain

/-!
# Neighbours from an SQL database: `GSQLBackend::getBeforeAndAfterNamesAbsolute`

The SQL backends keep an order name with every record: the reversed relative name, which is
empty for the apex, or a hash. The neighbours of a name are found with two statements, one for
the last order name not after it and one for the first order name after it. When a statement
comes back with nothing the search starts over from an end of the order: with the empty text for
`after`, and with `{` for `before`.

That a statement came back with nothing is seen from an empty result, but the order name of the
apex is empty, too. `neighbours_iff` says when the neighbours are right all the same.

A `Database` executes the statements as they are written, and order names are compared octet by
octet. Which of several records with the same order name is found is left open.
-/

namespace PowerDNS

open CyclicChain Option List

/-- A row of the table `records`, as far as the statements look at it. -/
structure RecordRow where
  ordername : Option Octets
  name : Octets
  auth : Bool
  domain_id : Nat
  deriving DecidableEq

/-- An order name as a point of the octet order. -/
def orderKey (ordername : Octets) : List Nat := ordername.map UInt8.toNat

theorem orderKey_inj {a b : Octets} : orderKey a = orderKey b ↔ a = b :=
  (map_injective_iff.mpr fun _ _ => UInt8.toNat_inj.mp).eq_iff

/-- The empty order name comes before all others. -/
theorem nil_le_point (n : List Nat) : [] ≤ n := le_of_not_gt (not_lt_nil n)

theorem le_nil_iff {n : List Nat} : n ≤ [] ↔ n = [] :=
  ⟨fun h => le_antisymm h (nil_le_point n), fun h => h.le⟩

/-- The order names, with their owners, of the authoritative records of a domain:
`auth=1 and domain_id=%d`. -/
def orderedNames (records : List RecordRow) (domain_id : Nat) : List (Octets × Octets) :=
  records.filterMap fun r =>
    if r.auth && r.domain_id == domain_id then r.ordername.map fun o => (o, r.name) else none

/-- The order names of a domain as points of the octet order. -/
def orderPoints (records : List RecordRow) (domain_id : Nat) : Set (List Nat) :=
  OrderedChain.points (fun row : Octets × Octets => orderKey row.1) (orderedNames records domain_id)

/-- A database that executes the two statements as they are written.

* `getOrderBefore` is "select ordername, name from records where ordername <= '%s' and auth=1 and
  domain_id=%d order by 1 desc limit 1";
* `getOrderAfter` is "select min(ordername) from records where ordername > '%s' and auth=1 and
  domain_id=%d", and `none` is the value `NULL`. -/
structure Database where
  records : List RecordRow
  getOrderBefore : Octets → Nat → Option (Octets × Octets)
  getOrderAfter : Octets → Nat → Option Octets
  before_mem : ∀ {key id row}, getOrderBefore key id = some row → row ∈ orderedNames records id
  before_some : ∀ {key id row}, getOrderBefore key id = some row →
    IsGreatest {n | n ∈ orderPoints records id ∧ n ≤ orderKey key} (orderKey row.1)
  before_none : ∀ {key id}, getOrderBefore key id = none →
    ∀ n ∈ orderPoints records id, orderKey key < n
  after_some : ∀ {key id o}, getOrderAfter key id = some o →
    IsLeast {n | n ∈ orderPoints records id ∧ orderKey key < n} (orderKey o)
  after_none : ∀ {key id}, getOrderAfter key id = none →
    ∀ n ∈ orderPoints records id, n ≤ orderKey key

/-- A database with these records. Of several records with one order name it finds the one that
`List.argmax` finds. -/
def Database.ofRecords (records : List RecordRow) : Database where
  records := records
  getOrderBefore key id :=
    OrderedChain.predOf (fun row => orderKey row.1) (orderedNames records id) (orderKey key)
  getOrderAfter key id :=
    (OrderedChain.succOf (fun row => orderKey row.1) (orderedNames records id)
      (orderKey key)).map Prod.fst
  before_mem h := OrderedChain.mem_of_predOf h
  before_some h := OrderedChain.isPred_of_predOf h
  before_none h := OrderedChain.lt_of_predOf_eq_none h
  after_some h := by
    obtain ⟨row, hrow, rfl⟩ := map_eq_some_iff.mp h
    exact OrderedChain.isLeast_of_succOf hrow
  after_none h := OrderedChain.le_of_succOf_eq_none (map_eq_none_iff.mp h)

/-- What `getBeforeAndAfterNamesAbsolute` hands out. -/
structure Neighbours where
  unhashed : Octets
  before : Octets
  after : Octets
  deriving DecidableEq

namespace GSQLBackend

/-- What `snprintf` takes of a text: the octets up to the first NUL. -/
def cString (s : Octets) : Octets := s.takeWhile fun c => c ≠ 0

/-- `after`, from `retryAfter` on. -/
def retryAfter (db : Database) (id : Nat) (tmp : Octets) : Octets :=
  let after := (db.getOrderAfter (cString tmp) id).getD []
  -- "Oops, have to pick the first, there as no last!"
  if after = [] ∧ tmp ≠ [] then (db.getOrderAfter [] id).getD [] else after

/-- The text `{`, which is meant to come after all order names. -/
def sentinel : Octets := [123]

/-- `before` and `unhashed`, from `retryBefore` on. -/
def retryBefore (db : Database) (id : Nat) (lcqname : Octets) : Octets × Octets :=
  let found := (db.getOrderBefore (cString lcqname) id).getD ([], [])
  -- "Oops, have to pick the last!"; without a row what was found stays
  if found.1 = [] ∧ lcqname ≠ sentinel then (db.getOrderBefore sentinel id).getD found else found

/-- `getBeforeAndAfterNamesAbsolute(id, qname, unhashed, before, after)`. -/
def getBeforeAndAfterNamesAbsolute (db : Database) (id : Nat) (qname : Octets) : Neighbours :=
  let lcqname := toLower qname
  let after := retryAfter db id lcqname
  let (before, unhashed) := retryBefore db id lcqname
  { unhashed := unhashed, before := before, after := after }

/-! ### The ends of the order -/

variable {db : Database} {id : Nat} {qname : Octets}

/-- The text that reaches the database comes from the front of the name. -/
theorem orderKey_cString_le (s : Octets) : orderKey (cString s) ≤ orderKey s := by
  have hprefix : orderKey (cString s) <+: orderKey s := ( takeWhile_prefix _).map _
  exact le_of_not_gt hprefix.le

/-- **`after` is right** when an order name comes after the query; when none does, the empty order
name must not be among the others. -/
theorem after_iff (hne : (orderPoints db.records id).Nonempty) (tmp : Octets) :
    IsSucc (orderPoints db.records id) (orderKey (cString tmp)) (orderKey (retryAfter db id tmp)) ↔
      (∃ n ∈ orderPoints db.records id, orderKey (cString tmp) < n) ∨ [] ∉ orderPoints db.records id ∨
        ∀ n ∈ orderPoints db.records id, n = [] := by
  unfold retryAfter
  cases hafter : db.getOrderAfter (cString tmp) id with
  | some o =>
    have hleast := db.after_some hafter
    have ho : o ≠ [] := by
      rintro rfl
      exact absurd hleast.1.2 (not_lt_nil _)
    rw [getD_some, if_neg fun h => ho h.1]
    exact iff_of_true (.inl hleast) (.inl ⟨_, hleast.1.1, hleast.1.2⟩)
  | none =>
    have hall := db.after_none hafter
    have hnone : ¬ ∃ n ∈ orderPoints db.records id, orderKey (cString tmp) < n := by
      rintro ⟨n, hn, hlt⟩
      exact absurd (hall n hn) (not_le.mpr hlt)
    -- the first order name of all is the right one
    have hfirst : ∀ a, IsSucc (orderPoints db.records id) (orderKey (cString tmp)) a ↔
        IsLeast (orderPoints db.records id) a := by
      intro a
      constructor
      · rintro (hleast | ⟨hleast, -⟩)
        · exact absurd ⟨a, hleast.1⟩ hnone
        · exact hleast
      · exact fun hleast => .inr ⟨hleast, hall⟩
    rw [getD_none, hfirst, or_iff_right hnone]
    -- with all order names empty the search ends with the empty text
    have hempty : (∀ n ∈ orderPoints db.records id, n = []) → IsLeast (orderPoints db.records id) [] := by
      intro hnil
      obtain ⟨n, hn⟩ := hne
      exact ⟨hnil n hn ▸ hn, fun m _ => nil_le_point m⟩
    by_cases htmp : tmp = []
    · subst htmp
      have hnil : ∀ n ∈ orderPoints db.records id, n = [] := fun n hn => le_nil_iff.mp (hall n hn)
      exact iff_of_true (hempty hnil) (.inr hnil)
    · rw [if_pos ⟨rfl, htmp⟩]
      cases hagain : db.getOrderAfter [] id with
      | some o =>
        obtain ⟨⟨hmem, hpos⟩, hmin⟩ := db.after_some hagain
        constructor
        · intro hleast
          refine .inl fun hnil => ?_
          exact absurd (hleast.2 hnil) (not_le.mpr hpos)
        · rintro (hnil | hnil)
          · refine ⟨hmem, fun n hn => hmin ⟨hn, ?_⟩⟩
            refine lt_of_le_of_ne (nil_le_point n) ?_
            rintro rfl
            exact hnil hn
          · exact absurd hpos (hnil _ hmem ▸ lt_irrefl _)
      | none =>
        have hnil : ∀ n ∈ orderPoints db.records id, n = [] :=
          fun n hn => le_nil_iff.mp (db.after_none hagain n hn)
        exact iff_of_true (hempty hnil) (.inr hnil)

/-- **`before` is right** when an order name other than the empty one is not after the query. When
there is none, the search for the last order name must lead to the right one: to the empty one when
it is there, and else to the last of all. -/
theorem before_iff (hne : (orderPoints db.records id).Nonempty) (lcqname : Octets) :
    IsPred (orderPoints db.records id) (orderKey (cString lcqname))
        (orderKey (retryBefore db id lcqname).1) ↔
      (∃ n ∈ orderPoints db.records id, n ≠ [] ∧ n ≤ orderKey (cString lcqname)) ∨
        ([] ∈ orderPoints db.records id ∧
          ∀ n ∈ orderPoints db.records id, n ≤ orderKey sentinel → n = []) ∨
        ([] ∉ orderPoints db.records id ∧
          ∀ n ∈ orderPoints db.records id, n ≤ orderKey sentinel) := by
  unfold retryBefore
  dsimp only
  cases hbefore : db.getOrderBefore (cString lcqname) id with
  | some row =>
    have hgreatest := db.before_some hbefore
    rw [getD_some]
    by_cases hrow : row.1 = []
    · -- the last order name not after the query is the empty one
      rw [hrow] at hgreatest ⊢
      have hapex : [] ∈ orderPoints db.records id := hgreatest.1.1
      have hfirst : ¬ ∃ n ∈ orderPoints db.records id, n ≠ [] ∧ n ≤ orderKey (cString lcqname) := by
        rintro ⟨n, hn, hnil, hle⟩
        exact hnil (le_nil_iff.mp (hgreatest.2 ⟨hn, hle⟩))
      rw [or_iff_right hfirst, or_iff_left fun h => h.1 hapex, and_iff_right hapex]
      have hpred : IsPred (orderPoints db.records id) (orderKey (cString lcqname)) [] :=
        .inl hgreatest
      by_cases hlast : lcqname = sentinel
      · rw [if_neg fun h => h.2 hlast, hrow]
        rw [hlast] at hgreatest
        exact iff_of_true hpred fun n hn hle => le_nil_iff.mp (hgreatest.2 ⟨hn, hle⟩)
      · rw [if_pos ⟨rfl, hlast⟩]
        cases hagain : db.getOrderBefore sentinel id with
        | some row' =>
          obtain ⟨⟨hmem', hle'⟩, hmax'⟩ := db.before_some hagain
          rw [getD_some]
          constructor
          · intro h n hn hle
            rw [h.unique hpred] at hmax'
            exact le_nil_iff.mp (hmax' ⟨hn, hle⟩)
          · intro hnil
            rw [hnil _ hmem' hle']
            exact hpred
        | none => exact absurd (db.before_none hagain [] hapex) (not_lt_nil _)
    · rw [if_neg fun h => hrow h.1]
      refine iff_of_true (.inl hgreatest) (.inl ⟨_, hgreatest.1.1, fun h => hrow ?_, hgreatest.1.2⟩)
      exact orderKey_inj.mp h
  | none =>
    have hall := db.before_none hbefore
    have hapex : [] ∉ orderPoints db.records id := fun h => not_lt_nil _ (hall [] h)
    have hfirst : ¬ ∃ n ∈ orderPoints db.records id, n ≠ [] ∧ n ≤ orderKey (cString lcqname) := by
      rintro ⟨n, hn, -, hle⟩
      exact absurd (hall n hn) (not_lt.mpr hle)
    rw [getD_none, or_iff_right hfirst, or_iff_right fun h => hapex h.1, and_iff_right hapex]
    by_cases hlast : lcqname = sentinel
    · rw [if_neg fun h => h.2 hlast]
      rw [hlast] at hall
      refine iff_of_false (fun h => hapex h.mem) fun h => ?_
      obtain ⟨n, hn⟩ := hne
      exact absurd (hall n hn) (not_lt.mpr (h n hn))
    · rw [if_pos ⟨rfl, hlast⟩]
      cases hagain : db.getOrderBefore sentinel id with
      | some row' =>
        obtain ⟨⟨hmem', hle'⟩, hmax'⟩ := db.before_some hagain
        constructor
        · rintro (h | ⟨h, -⟩) n hn
          · exact absurd (hall _ h.1.1) (not_lt.mpr h.1.2)
          · exact (h.2 hn).trans hle'
        · exact fun hle => .inr ⟨⟨hmem', fun n hn => hmax' ⟨hn, hle n hn⟩⟩, hall⟩
      | none =>
        refine iff_of_false (fun h => hapex h.mem) fun h => ?_
        obtain ⟨n, hn⟩ := hne
        exact absurd (db.before_none hagain n hn) (not_lt.mpr (h n hn))

/-- What stands in `before` and `unhashed` is a row, unless all order names come after the query
and after `{`. -/
theorem retryBefore_mem {lcqname : Octets}
    (h : IsPred (orderPoints db.records id) (orderKey (cString lcqname))
      (orderKey (retryBefore db id lcqname).1)) :
    retryBefore db id lcqname ∈ orderedNames db.records id := by
  unfold retryBefore at h ⊢
  dsimp only at h ⊢
  cases hbefore : db.getOrderBefore (cString lcqname) id with
  | some row =>
    have hrow := db.before_mem hbefore
    split
    · cases hagain : db.getOrderBefore sentinel id with
      | some row' => exact db.before_mem hagain
      | none => exact hrow
    · exact hrow
  | none =>
    have hapex : [] ∉ orderPoints db.records id :=
      fun h => not_lt_nil _ (db.before_none hbefore [] h)
    rw [hbefore, getD_none] at h
    rw [getD_none]
    split
    next hretry =>
      rw [if_pos hretry] at h
      cases hagain : db.getOrderBefore sentinel id with
      | some row' => exact db.before_mem hagain
      | none =>
        rw [hagain] at h
        exact absurd h.mem hapex
    next hretry =>
      rw [if_neg hretry] at h
      exact absurd h.mem hapex

/-- When `after` is right for the whole query, nothing separates the query from the text that
reached the database. -/
theorem sameGap_of_isSucc {s : Octets}
    (h : IsSucc (orderPoints db.records id) (orderKey s) (orderKey (retryAfter db id s))) :
    SameGap (orderPoints db.records id) (orderKey (cString s)) (orderKey s) := by
  by_cases hsep : ∃ n ∈ orderPoints db.records id, orderKey (cString s) < n ∧ n ≤ orderKey s
  · obtain ⟨n, hn, hlt, hle⟩ := hsep
    unfold retryAfter at h
    cases hafter : db.getOrderAfter (cString s) id with
    | some o =>
      have hleast := db.after_some hafter
      have ho : o ≠ [] := by
        rintro rfl
        exact absurd hleast.1.2 (not_lt_nil _)
      rw [hafter, getD_some, if_neg fun h => ho h.1] at h
      have hos : orderKey o ≤ orderKey s := (hleast.2 ⟨hn, hlt⟩).trans hle
      rcases h with h | ⟨h, hall⟩
      · exact absurd h.1.2 (not_lt.mpr hos)
      · exact .inr (.inr fun m hm => ⟨hleast.1.2.trans_le (h.2 hm), hall m hm⟩)
    | none => exact absurd (db.after_none hafter n hn) (not_le.mpr hlt)
  · refine .inl fun n hn => ⟨fun hle => hle.trans (orderKey_cString_le s), fun hle => ?_⟩
    exact not_lt.mp fun hlt => hsep ⟨n, hn, hlt, hle⟩

/-! ### The neighbours -/

/-- The neighbours that the order names of a domain give a query, which is compared in lower case:
`before` is the last order name not after the query, or the last of all when there is none, `after`
is the first one after the query, or the first of all, and `unhashed` owns `before`. -/
structure RightNeighbours (db : Database) (id : Nat) (qname : Octets) (found : Neighbours) : Prop where
  before : IsPred (orderPoints db.records id) (orderKey (toLower qname)) (orderKey found.before)
  after : IsSucc (orderPoints db.records id) (orderKey (toLower qname)) (orderKey found.after)
  unhashed : (found.before, found.unhashed) ∈ orderedNames db.records id

/-- When an empty result can be taken for no row: an order name other than the empty one comes not
after the query, and one comes after it; or, where that is not so, starting over from the end of
the order leads to the right one. No order name lies between the query and what of it is in front
of a NUL octet. -/
structure StartsOver (names : Set (List Nat)) (query : Octets) : Prop where
  whole : SameGap names (orderKey (cString query)) (orderKey query)
  before : (∃ n ∈ names, n ≠ [] ∧ n ≤ orderKey (cString query)) ∨
    ([] ∈ names ∧ ∀ n ∈ names, n ≤ orderKey sentinel → n = []) ∨
    ([] ∉ names ∧ ∀ n ∈ names, n ≤ orderKey sentinel)
  after : (∃ n ∈ names, orderKey (cString query) < n) ∨ [] ∉ names ∨ ∀ n ∈ names, n = []

/-- **Neighbours from an SQL database.** They are right exactly when the empty order name of the
apex is neither taken for a missing row nor passed over at the ends of the order, and `{` comes
after the order names when they are searched from their end. -/
theorem order_neighbours_iff (db : Database) (id : Nat) (qname : Octets)
    (hne : (orderPoints db.records id).Nonempty) :
    RightNeighbours db id qname (getBeforeAndAfterNamesAbsolute db id qname) ↔
      StartsOver (orderPoints db.records id) (toLower qname) := by
  constructor
  · rintro ⟨hbefore, hafter, -⟩
    have hgap := sameGap_of_isSucc hafter
    exact ⟨hgap, (before_iff hne _).mp (hgap.isPred_iff.mpr hbefore),
      (after_iff hne _).mp (hgap.isSucc_iff.mpr hafter)⟩
  · rintro ⟨hgap, hbefore, hafter⟩
    have hpred := (before_iff hne _).mpr hbefore
    exact ⟨hgap.isPred_iff.mp hpred, hgap.isSucc_iff.mp ((after_iff hne _).mpr hafter),
      retryBefore_mem hpred⟩

/-- The zone `example.com`, with the names `mail` and `www` below the apex. -/
def exampleRecords : List RecordRow :=
  [{ ordername := some [], name := ascii "example.com", auth := true, domain_id := 1 },
   { ordername := some (ascii "mail"), name := ascii "mail.example.com", auth := true
     domain_id := 1 },
   { ordername := some (ascii "www"), name := ascii "www.example.com", auth := true, domain_id := 1 }]

theorem order_neighbours_between :
    RightNeighbours (.ofRecords exampleRecords) 1 (ascii "News")
      { unhashed := ascii "mail.example.com", before := ascii "mail", after := ascii "www" } := by
  refine (order_neighbours_iff (.ofRecords exampleRecords) 1 (ascii "News")
    ⟨orderKey [], _, mem_cons_self, rfl⟩).mpr ⟨.inl fun _ _ => ?_, .inl ?_, .inl ?_⟩
  · exact iff_of_eq (congrArg _ (by decide))
  · exact ⟨orderKey (ascii "mail"), ⟨(ascii "mail", ascii "mail.example.com"), by decide, rfl⟩,
      by decide, by decide⟩
  · exact ⟨orderKey (ascii "www"), ⟨(ascii "www", ascii "www.example.com"), by decide, rfl⟩,
      by decide⟩

/-- **The apex is passed over**: the last order name not after `admin` is that of the apex, but it
is empty, and what is found is the last order name of all. -/
theorem apex_passed_over :
    getBeforeAndAfterNamesAbsolute (.ofRecords exampleRecords) 1 (ascii "admin") =
        { unhashed := ascii "www.example.com", before := ascii "www", after := ascii "mail" } ∧
      ¬ RightNeighbours (.ofRecords exampleRecords) 1 (ascii "admin")
        (getBeforeAndAfterNamesAbsolute (.ofRecords exampleRecords) 1 (ascii "admin")) := by
  have hfound : getBeforeAndAfterNamesAbsolute (.ofRecords exampleRecords) 1 (ascii "admin") =
      { unhashed := ascii "www.example.com", before := ascii "www", after := ascii "mail" } := by
    decide
  refine ⟨hfound, fun h => ?_⟩
  rcases h.before with ⟨⟨-, hle⟩, -⟩ | ⟨-, hall⟩
  · exact absurd hle (by decide)
  · exact absurd (hall (orderKey []) ⟨_, mem_cons_self, rfl⟩) (not_lt_nil _)

end GSQLBackend

end PowerDNS
