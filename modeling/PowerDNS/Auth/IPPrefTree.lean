import Mathlib.Data.BitVec
import Mathlib.Data.List.Infix
import Mathlib.Logic.Function.Basic

/-!
# The prefix tree of the geo backend

`IPPrefTree` has a node for every prefix of the prefixes added, and `lookup` goes down the bits of an address as far
as its mask goes. What the nodes hold is what was added last (`run_holds`), so `lookup` is a longest prefix match
(`longest_prefix_match`). The mask of the prefix length 0 comes from a shift by the width of an `int`, which the
language leaves undefined; where the machine takes the amount modulo 32 it is the mask of a whole address.
-/

namespace PowerDNS

open List BitVec

namespace IPPrefTree

/-! ### The code -/

/-- `node_t`. A pointer to one may be null. -/
inductive Node where
  | NULL
  | node (child₀ child₁ : Node) (value : Int16)
  deriving DecidableEq

/-- `node->value`. -/
def Node.value? : Node → Option Int16
  | .NULL => none
  | .node _ _ value => some value

def allocateNode : Node := .node .NULL .NULL 0

/-- `preflenToNetmask`, of lengths up to 32. What an `int` makes of a shift by 32 is up to the machine. -/
def preflenToNetmask (overwide : BitVec 32) (preflen : Nat) : BitVec 32 :=
  ~~~((if 32 - preflen < 32 then 1#32 <<< (32 - preflen) else overwide) - 1#32)

/-- `addNode`, with `nodecount` behind it. A mask is shifted away after as many turns as it has bits. -/
def addNode : Nat → Node → BitVec 32 → BitVec 32 → Int16 → Int32 → Node × Int32
  -- neither the root nor a node from `allocateNode` is null
  | _, .NULL, _, _, _, nodecount => (.NULL, nodecount)
  | 0, .node child₀ child₁ _, _, _, value, nodecount => (.node child₀ child₁ value, nodecount)
  | turns + 1, .node child₀ child₁ old, ip, mask, value, nodecount =>
    if mask = 0 then (.node child₀ child₁ value, nodecount)
    else
      let child := if ip >>> 31 = 0 then child₀ else child₁
      let (child, nodecount) := if child = .NULL then (allocateNode, nodecount + 1) else (child, nodecount)
      let (child, nodecount) := addNode turns child (ip <<< 1) (mask <<< 1) value nodecount
      (if ip >>> 31 = 0 then .node child child₁ old else .node child₀ child old, nodecount)

/-- `findDeepestFilledNode`. -/
def findDeepestFilledNode : Node → BitVec 32 → BitVec 32 → Node
  | .NULL, _, _ => .NULL
  | .node child₀ child₁ value, ip, mask =>
    if mask = 0 then if value = 0 then .NULL else .node child₀ child₁ value
    else
      let descendant := if ip >>> 31 = 0 then findDeepestFilledNode child₀ (ip <<< 1) (mask <<< 1)
        else findDeepestFilledNode child₁ (ip <<< 1) (mask <<< 1)
      if descendant = .NULL then if value ≠ 0 then .node child₀ child₁ value else .NULL
      else descendant

/-- `removeNode`, by what it makes of `nodecount`. -/
def removeNode : Node → Int32 → Int32
  | .NULL, nodecount => nodecount
  | .node child₀ child₁ _, nodecount => removeNode child₁ (removeNode child₀ nodecount) - 1

end IPPrefTree

open IPPrefTree

structure IPPrefTree where
  root : Node
  nodecount : Int32

/-- A call that changes the tree. -/
inductive IPPrefTree.Call where
  | add (ip : BitVec 32) (preflen : Nat) (value : Int16)
  | clear

namespace IPPrefTree

/-- The constructor. -/
def create : IPPrefTree := { root := allocateNode, nodecount := 0 + 1 }

def lookup (overwide : BitVec 32) (t : IPPrefTree) (ip : BitVec 32) (preflen : Nat) : Int16 :=
  (findDeepestFilledNode t.root ip (preflenToNetmask overwide preflen)).value?.getD 0

/-- `add` and `clear`. -/
def call (overwide : BitVec 32) (t : IPPrefTree) : Call → IPPrefTree
  | .add ip preflen value =>
    let (root, nodecount) := addNode 32 t.root ip (preflenToNetmask overwide preflen) value t.nodecount
    { root, nodecount }
  | .clear => { root := allocateNode, nodecount := removeNode t.root t.nodecount + 1 }

def run (overwide : BitVec 32) (calls : List Call) : IPPrefTree := calls.foldl (call overwide) create

/-! ### What it is for -/

/-- A prefix, by its bits. -/
def bits (ip : BitVec 32) (preflen : Nat) : List Bool := (range preflen).map ip.getMsbD

/-- What prefixes have after a call: the value added last, since the last `clear`. -/
def Call.update (held : List Bool → Int16) : Call → List Bool → Int16
  | .add ip preflen value => Function.update held (bits ip preflen) value
  | .clear => fun _ => 0

def lastAdded (calls : List Call) : List Bool → Int16 := calls.foldl Call.update fun _ => 0

/-- The values of the prefixes of these bits that have one, the shorter ones first. -/
def values (held : List Bool → Int16) (path : List Bool) : List Int16 := (path.inits.map held).filter (· ≠ 0)

/-- The nodes of a tree. -/
def Node.count : Node → Nat
  | .NULL => 0
  | .node child₀ child₁ _ => child₀.count + child₁.count + 1

/-- What the node at the end of a path holds. -/
def Node.held : Node → List Bool → Int16
  | .NULL, _ => 0
  | .node _ _ value, [] => value
  | .node child₀ _ _, false :: p => child₀.held p
  | .node _ child₁ _, true :: p => child₁.held p

/-! ### Bits and masks -/

/-- The mask of so many bits. -/
def maskOf (n : Nat) : BitVec 32 := allOnes 32 <<< (32 - n)

theorem preflenToNetmask_eq (overwide : BitVec 32) {preflen : Nat} (hpos : 0 < preflen) (hmax : preflen ≤ 32) :
    preflenToNetmask overwide preflen = maskOf preflen := by
  have hall : ∀ n : Fin 32, ~~~(1#32 <<< (32 - (n.val + 1)) - 1#32) = maskOf (n.val + 1) := by decide
  obtain ⟨n, rfl⟩ := Nat.exists_eq_add_one_of_ne_zero hpos.ne'
  unfold preflenToNetmask
  rw [if_pos (by omega)]
  exact hall ⟨n, hmax⟩

theorem maskOf_succ_ne_zero {n : Nat} (h : n < 32) : maskOf (n + 1) ≠ 0 := by
  have hall : ∀ n : Fin 32, maskOf (n.val + 1) ≠ 0 := by decide
  exact hall ⟨n, h⟩

theorem maskOf_shiftLeft {n : Nat} (h : n < 32) : maskOf (n + 1) <<< 1 = maskOf n := by
  unfold maskOf
  rw [← shiftLeft_add, show 32 - (n + 1) + 1 = 32 - n by omega]

theorem shiftRight_eq_zero_iff (ip : BitVec 32) : ip >>> 31 = 0 ↔ ip.msb = false := by
  rw [msb_eq_false_iff_two_mul_lt]
  bv_omega

theorem bits_succ (ip : BitVec 32) (n : Nat) : bits ip (n + 1) = ip.msb :: bits (ip <<< 1) n := by
  unfold bits
  rw [range_succ_eq_map, map_cons, map_map]
  refine congrArg _ (map_congr_left fun i _ => ?_)
  rw [getMsbD_shiftLeft, Function.comp_apply, Nat.succ_eq_add_one, Nat.add_comm]

/-! ### Adding -/

variable {node : Node} {ip : BitVec 32} {value : Int16} {nodecount : Int32} {n : Nat}

/-- A new node is like none but for its number. -/
theorem held_allocateNode : allocateNode.held = Node.NULL.held := by
  funext p
  rcases p with _ | ⟨_ | _, p⟩ <;> rfl

theorem held_child {child₀ child₁ child : Node} {old : Int16} {q : List Bool} (b : Bool)
    (h : child.held = Function.update (if b = false then child₀ else child₁).held q value) :
    (if b = false then Node.node child child₁ old else Node.node child₀ child old).held =
      Function.update (Node.node child₀ child₁ old).held (b :: q) value := by
  funext p
  rcases p with _ | ⟨_ | _, p⟩ <;> cases b <;> simp_all [Node.held, Function.update_apply]

/-- What `addNode` makes of a node, and of `nodecount`. -/
structure Added (node : Node) (path : List Bool) (value : Int16) (nodecount : Int32) (r : Node × Int32) : Prop where
  ne_null : r.1 ≠ .NULL
  held : r.1.held = Function.update node.held path value
  count : r.2 + Int32.ofNat node.count = nodecount + Int32.ofNat r.1.count

theorem added_here (child₀ child₁ : Node) (old : Int16) :
    Added (.node child₀ child₁ old) [] value nodecount (.node child₀ child₁ value, nodecount) := by
  refine ⟨by simp, ?_, rfl⟩
  funext p
  rcases p with _ | ⟨_ | _, p⟩ <;> simp [Node.held]

/-- The child that `addNode` goes on with. -/
theorem exists_child (child : Node) (nodecount : Int32) :
    ∃ child' nodecount', (if child = .NULL then (allocateNode, nodecount + 1) else (child, nodecount)) =
        (child', nodecount') ∧ child' ≠ .NULL ∧ child'.held = child.held ∧
      nodecount' + Int32.ofNat child.count = nodecount + Int32.ofNat child'.count := by
  by_cases h : child = .NULL
  · rw [if_pos h, h]
    exact ⟨allocateNode, nodecount + 1, rfl, by decide, held_allocateNode, Int32.add_zero _⟩
  · rw [if_neg h]
    exact ⟨child, nodecount, rfl, h, rfl, rfl⟩

theorem addNode_added {turns : Nat} (hn : n ≤ turns) (hmax : turns ≤ 32) (hnode : node ≠ .NULL) :
    Added node (bits ip n) value nodecount (addNode turns node ip (maskOf n) value nodecount) := by
  induction turns generalizing node ip nodecount n with
  | zero =>
    obtain rfl := Nat.le_zero.mp hn
    cases node with
    | NULL => exact absurd rfl hnode
    | node child₀ child₁ old => exact added_here child₀ child₁ old
  | succ turns ih =>
    cases node with
    | NULL => exact absurd rfl hnode
    | node child₀ child₁ old =>
    cases n with
    | zero => exact added_here child₀ child₁ old
    | succ n =>
    have hlt : n < 32 := hn.trans hmax
    rw [addNode, if_neg (maskOf_succ_ne_zero hlt), maskOf_shiftLeft hlt, bits_succ]
    simp only [shiftRight_eq_zero_iff]
    generalize hchild : (if ip.msb = false then child₀ else child₁) = child
    obtain ⟨child', nodecount', hnew, hne, hheld, hcount⟩ := exists_child child nodecount
    rw [hnew]
    obtain ⟨hne', hheld', hcount'⟩ := @ih child' (ip <<< 1) nodecount' n (Nat.le_of_succ_le_succ hn)
      (Nat.le_of_succ_le hmax) hne
    rw [hheld, ← hchild] at hheld'
    refine ⟨?_, held_child ip.msb hheld', ?_⟩
    · dsimp only
      split <;> simp
    · dsimp only
      cases hb : ip.msb
      all_goals
        simp only [hb, if_true, reduceCtorEq, if_false] at hchild ⊢
        subst hchild
        simp only [Node.count, Int32.ofNat_add]
        grind

/-! ### Looking up -/

theorem values_cons {held held' : List Bool → Int16} {b : Bool} {path : List Bool}
    (h : ∀ p, held (b :: p) = held' p) :
    values held (b :: path) = if held [] = 0 then values held' path else held [] :: values held' path := by
  have hbelow : held ∘ (b :: ·) = held' := funext h
  unfold values
  rw [inits_cons, map_cons, map_map, filter_cons, hbelow]
  by_cases hzero : held [] = 0
  · rw [if_pos hzero, if_neg (by simp [hzero])]
  · rw [if_neg hzero, if_pos (by simp [hzero])]

/-- The node found is the last one on the way with a value. -/
theorem find_value (hn : n ≤ 32) :
    (findDeepestFilledNode node ip (maskOf n)).value? = (values node.held (bits ip n)).getLast? := by
  induction node generalizing ip n with
  | NULL => simp [findDeepestFilledNode, Node.value?, values, Node.held]
  | node child₀ child₁ value ih₀ ih₁ =>
    cases n with
    | zero =>
      rw [findDeepestFilledNode, if_pos (by decide)]
      by_cases hzero : value = 0 <;> simp [hzero, bits, values, Node.held, Node.value?]
    | succ n =>
      obtain ⟨child, hheld, hfound⟩ : ∃ child : Node,
          (∀ p, (Node.node child₀ child₁ value).held (ip.msb :: p) = child.held p) ∧
          (if ip.msb = false then findDeepestFilledNode child₀ (ip <<< 1) (maskOf n)
            else findDeepestFilledNode child₁ (ip <<< 1) (maskOf n)).value? =
            (values child.held (bits (ip <<< 1) n)).getLast? := by
        cases ip.msb with
        | false => exact ⟨child₀, fun _ => rfl, ih₀ (Nat.le_of_succ_le hn)⟩
        | true => exact ⟨child₁, fun _ => rfl, ih₁ (Nat.le_of_succ_le hn)⟩
      rw [findDeepestFilledNode, if_neg (maskOf_succ_ne_zero hn), maskOf_shiftLeft hn, bits_succ, values_cons hheld]
      rw [show (Node.node child₀ child₁ value).held [] = value from rfl]
      simp only [shiftRight_eq_zero_iff]
      generalize (if ip.msb = false then findDeepestFilledNode child₀ (ip <<< 1) (maskOf n)
        else findDeepestFilledNode child₁ (ip <<< 1) (maskOf n)) = descendant at hfound ⊢
      cases descendant with
      | NULL =>
        rw [if_pos rfl, getLast?_eq_none_iff.mp hfound.symm, ite_not]
        by_cases hzero : value = 0 <;> simp [hzero, Node.value?]
      | node _ _ deeper =>
        rw [if_neg nofun]
        by_cases hzero : value = 0
        · rw [if_pos hzero]
          exact hfound
        · rw [if_neg hzero, getLast?_cons, ← hfound]
          rfl

/-! ### Runs -/

theorem removeNode_eq (node : Node) (nodecount : Int32) :
    removeNode node nodecount = nodecount - Int32.ofNat node.count := by
  induction node generalizing nodecount with
  | NULL => exact (Int32.sub_zero _).symm
  | node child₀ child₁ value ih₀ ih₁ =>
    rw [removeNode, ih₀, ih₁, Node.count, Int32.ofNat_add, Int32.ofNat_add]
    grind

/-- Prefix lengths from 1 to 32. -/
def Call.Proper : Call → Prop
  | .add _ preflen _ => 0 < preflen ∧ preflen ≤ 32
  | .clear => True

/-- The tree holds these values, and counts its nodes. -/
structure Holds (t : IPPrefTree) (held : List Bool → Int16) : Prop where
  root : t.root ≠ .NULL
  values : t.root.held = held
  count : t.nodecount = Int32.ofNat t.root.count

theorem Holds.call {t : IPPrefTree} {held : List Bool → Int16} {c : Call} (overwide : BitVec 32) (h : Holds t held)
    (hc : c.Proper) : Holds (t.call overwide c) (c.update held) := by
  cases c with
  | add ip preflen value =>
    obtain ⟨hroot, hheld, hcount⟩ := @addNode_added t.root ip value t.nodecount preflen 32 hc.2 le_rfl h.root
    rw [← preflenToNetmask_eq overwide hc.1 hc.2] at hroot hheld hcount
    refine ⟨hroot, hheld.trans (congrArg (Function.update · _ _) h.values), ?_⟩
    rw [Int32.add_comm] at hcount
    exact (Int32.add_right_inj (Int32.ofNat t.root.count)).mp (h.count ▸ hcount)
  | clear =>
    refine ⟨Node.noConfusion, held_allocateNode.trans rfl, ?_⟩
    change removeNode t.root t.nodecount + 1 = 1
    rw [removeNode_eq, h.count, Int32.sub_self, Int32.zero_add]

/-- **The nodes hold what was added last.** -/
theorem run_holds (overwide : BitVec 32) {calls : List Call} (h : ∀ c ∈ calls, c.Proper) :
    Holds (run overwide calls) (lastAdded calls) := by
  induction calls using List.reverseRecOn with
  | nil => exact ⟨Node.noConfusion, held_allocateNode.trans rfl, rfl⟩
  | append_singleton calls c ih =>
    unfold run lastAdded
    rw [foldl_append, foldl_append]
    exact (ih fun c hc => h c (mem_append_left _ hc)).call overwide (h c (mem_append_right _ mem_cons_self))

theorem lookup_eq (overwide : BitVec 32) {calls : List Call} (h : ∀ c ∈ calls, c.Proper) (ip : BitVec 32)
    {preflen : Nat} (hpos : 0 < preflen) (hmax : preflen ≤ 32) : (run overwide calls).lookup overwide ip preflen =
      (values (lastAdded calls) (bits ip preflen)).getLastD 0 := by
  unfold lookup
  rw [preflenToNetmask_eq overwide hpos hmax, find_value hmax, (run_holds overwide h).values, getLastD_eq_getLast?]

/-- **Longest prefix match.** -/
theorem longest_prefix_match (overwide : BitVec 32) (calls : List Call) (h : ∀ c ∈ calls, c.Proper) :
    (∀ ip preflen, 0 < preflen → preflen ≤ 32 → (run overwide calls).lookup overwide ip preflen =
      (values (lastAdded calls) (bits ip preflen)).getLastD 0) ∧
    ((run overwide calls).nodecount.toInt = (run overwide calls).root.count ↔
      (run overwide calls).root.count < 2 ^ 31) := by
  refine ⟨fun ip _ => lookup_eq overwide h ip, ?_⟩
  rw [(run_holds overwide h).count]
  constructor
  · intro hcount
    have hlt := Int32.toInt_lt (Int32.ofNat (run overwide calls).root.count)
    omega
  · exact Int32.toInt_ofNat_of_lt

theorem nested_prefixes :
    (run 1 [.add 0x0A000000 8 1, .add 0x0A010000 16 2]).lookup 1 0x0A010203 32 = 2 :=
  (longest_prefix_match 1 [.add 0x0A000000 8 1, .add 0x0A010000 16 2] (by simp [Call.Proper])).1 0x0A010203 32
    (by decide) le_rfl

/-- A value for all addresses, where a shift by 32 does not shift: no other address has it. -/
theorem default_not_found :
    (run 1 [.add 0 0 7]).lookup 1 0x0A000001 32 = 0 ∧
      (values (lastAdded [.add 0 0 7]) (bits 0x0A000001 32)).getLastD 0 = 7 := by
  decide

def additions (l : List (BitVec 32 × Nat × Int16)) : List Call := l.map fun e => .add e.1 e.2.1 e.2.2

/-- **The order does not matter** when the prefixes are different. -/
theorem lookup_of_perm (overwide : BitVec 32) {l l' : List (BitVec 32 × Nat × Int16)} (hperm : l.Perm l')
    (hproper : ∀ c ∈ additions l, c.Proper) (hdifferent : (l.map fun e => bits e.1 e.2.1).Nodup) (ip : BitVec 32)
    {preflen : Nat} (hpos : 0 < preflen) (hmax : preflen ≤ 32) :
    (run overwide (additions l)).lookup overwide ip preflen =
      (run overwide (additions l')).lookup overwide ip preflen := by
  have hproper' : ∀ c ∈ additions l', c.Proper := fun c hc => hproper c ((hperm.map _).mem_iff.mpr hc)
  rw [lookup_eq overwide hproper ip hpos hmax, lookup_eq overwide hproper' ip hpos hmax]
  unfold lastAdded additions
  rw [foldl_map, foldl_map, hperm.foldl_eq' fun a ha b hb held => ?_]
  by_cases heq : a = b
  · rw [heq]
  · exact Function.update_comm (fun h => heq (inj_on_of_nodup_map hdifferent ha hb h)) _ _ _

theorem either_way :
    (run 1 [.add 0 8 1, .add 0 9 2]).lookup 1 0 32 = (run 1 [.add 0 9 2, .add 0 8 1]).lookup 1 0 32 :=
  @lookup_of_perm 1 _ _ (.swap (0, 9, 2) (0, 8, 1) []) (by simp [additions, Call.Proper]) (by decide) 0 32 (by decide)
    le_rfl

end IPPrefTree

end PowerDNS
