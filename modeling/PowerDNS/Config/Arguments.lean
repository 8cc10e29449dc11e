import Mathlib.Data.List.DropRight
import PowerDNS.Base.Serialize

/-!
# Configuration files: `ArgvMap`

A program declares its parameters with their defaults. `file` reads a configuration file and sets all the
parameters it names; `preParseFile` reads the same file for one parameter. The two put lines together and
take them apart by themselves, each in a loop of its own.

`agrees_iff` says for which files they come to the same: no line may be empty, for `file` steps over such a
line, where `preParseFile` looks at the octet in front of it and takes it for the end of a continued line;
and no line may begin with a vertical tab or a form feed, which is white space for `file` alone.
-/

namespace PowerDNS

open List Bool

/-! ### The code -/

/-- `ArgException`. -/
inductive ArgException
  /-- "Trying to set unexisting parameter". -/
  | unexisting (var : Octets)
  deriving DecidableEq

/-- `ArgvMap`: the parameters that are set to a value, and the commands. -/
structure ArgvMap where
  params : Octets → Option Octets
  d_cmds : List Octets := []

namespace ArgvMap

/-- `parmIsset(var)`. -/
def parmIsset (m : ArgvMap) (var : Octets) : Bool := (m.params var).isSome

/-- `params[var]=val`. -/
def set (m : ArgvMap) (var val : Octets) : ArgvMap :=
  { m with params := fun v => if v = var then some val else m.params v }

/-- The octets of `arg` in front of the first `=` and behind it, when there is one. -/
def splitEquals (arg : Octets) : Option (Octets × Octets) :=
  if 61 ∈ arg then some (arg.takeWhile (· != 61), (arg.dropWhile (· != 61)).tail) else none

/-- The names and values of `parseOne`; a command has no name. -/
def varVal (arg : Octets) : Octets × Octets :=
  if arg.take 2 = [45, 45] then
    match splitEquals (arg.drop 2) with
    -- this is a --port=25 case
    | some (var, val) => (var, val)
    -- this is a --daemon case
    | none => (arg.drop 2, [])
  else if arg.head? = some 45 then (arg.drop 1, [])
  else ([], [])

/-- Blanks and tabs in front of a value. -/
def stripBlanks (val : Octets) : Octets :=
  if val.all fun c => c == 32 || c == 9 then val else val.dropWhile fun c => c == 32 || c == 9

/-- `parseOne(arg, parseOnly, lax)`. -/
def parseOne (m : ArgvMap) (arg parseOnly : Octets) (lax : Bool) : Except ArgException ArgvMap :=
  let m := if arg.head? = some 45 then m else { m with d_cmds := m.d_cmds ++ [arg] }
  let var := (varVal arg).1
  if var ≠ [] ∧ (parseOnly = [] ∨ var = parseOnly) then
    if m.parmIsset var then .ok (m.set var (stripBlanks (varVal arg).2))
    else if lax then .ok m
    else .error (.unexisting var)
  else .ok m

/-- The lines that `getline` finds in a file, `cur` in front of them. -/
def getlinesFrom : Octets → Octets → List Octets
  | cur, [] => if cur = [] then [] else [cur]
  | cur, c :: text => if c = 10 then cur :: getlinesFrom [] text else getlinesFrom (cur ++ [c]) text

/-- The lines of a file. -/
def getlines (text : Octets) : List Octets := getlinesFrom [] text

/-- `trim_right`. -/
def trimRight (s : Octets) : Octets := s.rdropWhile isSpace

/-- `trim`. -/
def trim (s : Octets) : Octets := (trimRight s).dropWhile isSpace

/-- Strip everything after a #. -/
def uncommented (line : Octets) : Octets := line.takeWhile (· != 35)

/-- A loop over the lines of a file: the parameters, the line that is put together, and whether the loop
has looked at an octet outside the line that was read. -/
structure Reading where
  map : ArgvMap
  line : Octets := []
  outside : Bool := false

/-- White space as `preParseFile` strips it from the front of a line. -/
def isLeading (c : UInt8) : Bool := c == 32 || c == 9 || c == 13 || c == 10

/-- One turn of the loop of `preParseFile`. `before` is what stands in front of an empty line in memory. -/
def preParseLine (before : UInt8) (arg : Octets) (r : Reading) (pline : Octets) :
    Except ArgException Reading :=
  let pline := trimRight pline
  let outside := r.outside || pline.isEmpty
  if pline.getLast?.getD before = backslash then
    .ok { r with line := r.line ++ pline.dropLast, outside := outside }
  else do
    let line := trimRight (uncommented (r.line ++ pline))
    -- strip leading spaces
    let stripped := line.dropWhile isLeading
    let line := if stripped = [] then line else stripped
    let m ← r.map.parseOne ([45, 45] ++ line) arg false
    .ok { map := m, line := [], outside := outside }

/-- `preParseFile(fname, arg, theDefault)`; a file that cannot be opened is `none`. -/
def preParseFile (before : UInt8) (m : ArgvMap) (f : Option Octets) (arg theDefault : Octets) :
    Except ArgException Reading :=
  match f with
  | none => .ok { map := m.set arg theDefault }
  | some text => (getlines text).foldlM (preParseLine before arg) { map := m.set arg theDefault }

/-- One turn of the loop of `file`. -/
def fileLine (lax : Bool) (r : Reading) (pline : Octets) : Except ArgException Reading :=
  let pline := trimRight pline
  if pline.isEmpty then .ok r
  else if pline.getLast? = some backslash then .ok { r with line := r.line ++ pline.dropLast }
  else do
    let line := trim (uncommented (r.line ++ pline))
    let m ← r.map.parseOne ([45, 45] ++ line) [] lax
    .ok { r with map := m, line := [] }

/-- `file(fname, lax)`. -/
def file (m : ArgvMap) (f : Option Octets) (lax : Bool) : Except ArgException Reading :=
  match f with
  | none => .ok { map := m }
  | some text => (getlines text).foldlM (fileLine lax) { map := m }

/-! ### What a file says -/

/-- The lines of a file with continued lines put together, without comments and what is white space at the
end, `cur` in front of them. -/
def logicalLines : Octets → List Octets → List Octets
  | _, [] => []
  | cur, pline :: plines =>
    if (trimRight pline).getLast? = some backslash then
      logicalLines (cur ++ (trimRight pline).dropLast) plines
    else trimRight (uncommented (cur ++ trimRight pline)) :: logicalLines [] plines

/-- The value of a parameter behind a line, `val` in front of it. -/
def valueBehind (arg val line : Octets) : Octets :=
  if (varVal ([45, 45] ++ line)).1 = arg then stripBlanks (varVal ([45, 45] ++ line)).2 else val

section Lines

variable {m m' : ArgvMap} {arg val line : Octets} {lax : Bool}

/-- What `parseOne` does to a parameter that is set, when it looks for this one alone or for all. -/
theorem parseOne_params {parseOnly : Octets} (harg : arg ≠ []) (hset : m.params arg = some val)
    (honly : parseOnly = [] ∨ parseOnly = arg) (h : m.parseOne ([45, 45] ++ line) parseOnly lax = .ok m') :
    m'.params arg = some (valueBehind arg val line) := by
  have hparams : m = if ([45, 45] ++ line).head? = some 45 then m
      else { m with d_cmds := m.d_cmds ++ [[45, 45] ++ line] } := (if_pos rfl).symm
  unfold parseOne at h
  rw [← hparams] at h
  dsimp only at h
  unfold valueBehind
  generalize varVal ([45, 45] ++ line) = v at h ⊢
  by_cases hvar : v.1 = arg
  · have hlooked : v.1 ≠ [] ∧ (parseOnly = [] ∨ v.1 = parseOnly) :=
      ⟨hvar ▸ harg, honly.imp_right fun heq => hvar.trans heq.symm⟩
    have hisset : m.parmIsset v.1 = true := by
      rw [parmIsset, hvar, hset]
      rfl
    rw [if_pos hlooked, if_pos hisset] at h
    rw [← Except.ok.inj h, if_pos hvar, hvar]
    exact if_pos rfl
  · rw [if_neg hvar, ← hset]
    split at h
    · split at h
      · rw [← Except.ok.inj h]
        exact if_neg fun heq => hvar heq.symm
      · split at h
        · rw [← Except.ok.inj h]
        · cases h
    · rw [← Except.ok.inj h]

/-- It throws for a parameter that is not set, and only when it is not lax. -/
theorem exists_parseOne {parseOnly : Octets} (h : lax = true ∨ parseOnly ≠ [] ∧ m.parmIsset parseOnly = true) :
    ∃ m', m.parseOne ([45, 45] ++ line) parseOnly lax = .ok m' := by
  have hparams : m = if ([45, 45] ++ line).head? = some 45 then m
      else { m with d_cmds := m.d_cmds ++ [[45, 45] ++ line] } := (if_pos rfl).symm
  unfold parseOne
  rw [← hparams]
  dsimp only
  split
  next hvar =>
    split
    · exact ⟨_, rfl⟩
    next hunset =>
      rcases h with rfl | ⟨hne, hisset⟩
      · exact ⟨m, rfl⟩
      · -- the only parameter it looks for is set
        rw [hvar.2.resolve_left hne] at hunset
        exact absurd hisset hunset
  · exact ⟨m, rfl⟩

end Lines

section Runs

variable {arg val : Octets} {lax : Bool} {plines : List Octets}

/-- A file without empty lines, read by `file`. -/
theorem file_run (harg : arg ≠ []) (hlines : ∀ pline ∈ plines, trimRight pline ≠ []) {r r' : Reading}
    (hset : r.map.params arg = some val) (h : plines.foldlM (fileLine lax) r = .ok r') :
    r'.outside = r.outside ∧ r'.map.params arg = some ((logicalLines r.line plines).foldl
      (fun val line => valueBehind arg val (line.dropWhile isSpace)) val) := by
  induction plines generalizing r val with
  | nil =>
    obtain rfl := Except.ok.inj h
    exact ⟨rfl, hset⟩
  | cons pline plines ih =>
    obtain ⟨hline, hrest⟩ := forall_mem_cons.mp hlines
    have hempty : (trimRight pline).isEmpty = false := by
      rwa [← not_eq_true, List.isEmpty_iff]
    rw [foldlM_cons] at h
    cases hturn : fileLine lax r pline with
    | error e =>
      rw [hturn] at h
      cases h
    | ok s =>
      rw [hturn] at h
      unfold fileLine at hturn
      dsimp only at hturn
      rw [hempty, if_neg Bool.false_ne_true] at hturn
      unfold logicalLines
      by_cases hcontinued : (trimRight pline).getLast? = some backslash
      · rw [if_pos hcontinued] at hturn ⊢
        obtain rfl := Except.ok.inj hturn
        exact @ih val hrest { r with line := r.line ++ (trimRight pline).dropLast } hset h
      · rw [if_neg hcontinued] at hturn ⊢
        cases hparse : r.map.parseOne ([45, 45] ++ trim (uncommented (r.line ++ trimRight pline))) [] lax with
        | error e =>
          rw [hparse] at hturn
          cases hturn
        | ok m =>
          rw [hparse] at hturn
          obtain rfl := Except.ok.inj hturn
          exact @ih _ hrest { r with map := m, line := [] } (parseOne_params harg hset (.inl rfl) hparse) h

/-- When it is lax, it does not throw. -/
theorem exists_file_run (plines : List Octets) (r : Reading) :
    ∃ r', plines.foldlM (fileLine true) r = .ok r' := by
  induction plines generalizing r with
  | nil => exact ⟨r, rfl⟩
  | cons pline plines ih =>
    have hturn : ∃ s, fileLine true r pline = .ok s := by
      unfold fileLine
      dsimp only
      split
      · exact ⟨_, rfl⟩
      · split
        · exact ⟨_, rfl⟩
        · obtain ⟨m, hparse⟩ := @exists_parseOne r.map (trim (uncommented (r.line ++ trimRight pline))) true []
            (.inl rfl)
          rw [hparse]
          exact ⟨_, rfl⟩
    obtain ⟨s, hturn⟩ := hturn
    rw [foldlM_cons, hturn]
    exact ih s

theorem isSpace_of_isLeading {c : UInt8} (h : isLeading c = true) : isSpace c = true := by
  unfold isLeading at h
  simp only [or_eq_true, beq_iff_eq] at h
  rcases h with ((rfl | rfl) | rfl) | rfl <;> decide

/-- A line that ends in no white space has none but white space only when it is empty. -/
theorem dropWhile_trimRight (line : Octets) (h : (trimRight line).dropWhile isLeading = []) :
    trimRight line = [] := by
  by_contra hne
  have hlast := rdropWhile_last_not isSpace line hne
  rw [dropWhile_eq_nil_iff] at h
  exact hlast (isSpace_of_isLeading (h _ (getLast_mem hne)))

/-- What `preParseFile` leaves of a line. -/
theorem strip_eq (line : Octets) :
    (if (trimRight line).dropWhile isLeading = [] then trimRight line
      else (trimRight line).dropWhile isLeading) = (trimRight line).dropWhile isLeading := by
  split
  next hnil =>
    rw [dropWhile_trimRight line hnil]
    rfl
  next => rfl

/-- **A file, read by `preParseFile`**: it does not throw; while no line is empty it stays within the lines. -/
theorem preParseFile_run (before : UInt8) (harg : arg ≠ []) {r : Reading}
    (hset : r.map.params arg = some val) :
    ∃ r', plines.foldlM (preParseLine before arg) r = .ok r' ∧
      (r'.outside = (r.outside || plines.any fun pline => (trimRight pline).isEmpty)) ∧
      ((∀ pline ∈ plines, trimRight pline ≠ []) → r'.map.params arg =
        some ((logicalLines r.line plines).foldl
          (fun val line => valueBehind arg val (line.dropWhile isLeading)) val)) := by
  induction plines generalizing r val with
  | nil => exact ⟨r, rfl, (Bool.or_false _).symm, fun _ => hset⟩
  | cons pline plines ih =>
    rw [foldlM_cons, any_cons, ← Bool.or_assoc]
    by_cases hcontinued : (trimRight pline).getLast?.getD before = backslash
    · have hturn : preParseLine before arg r pline = .ok { r with
          line := r.line ++ (trimRight pline).dropLast
          outside := r.outside || (trimRight pline).isEmpty } := if_pos hcontinued
      obtain ⟨r', hrun, houtside, hvalue⟩ := @ih val { r with
        line := r.line ++ (trimRight pline).dropLast
        outside := r.outside || (trimRight pline).isEmpty } hset
      rw [hturn]
      refine ⟨r', hrun, houtside, fun hlines => ?_⟩
      obtain ⟨hline, hrest⟩ := forall_mem_cons.mp hlines
      have hbackslash : (trimRight pline).getLast? = some backslash := by
        rw [getLast?_eq_some_getLast hline] at hcontinued ⊢
        exact congrArg some hcontinued
      unfold logicalLines
      rw [if_pos hbackslash]
      exact hvalue hrest
    · obtain ⟨m, hparse⟩ := @exists_parseOne r.map
        ((trimRight (uncommented (r.line ++ trimRight pline))).dropWhile isLeading) false arg
        (.inr ⟨harg, by rw [parmIsset, hset]; rfl⟩)
      have hturn : preParseLine before arg r pline = .ok {
          map := m, line := [], outside := r.outside || (trimRight pline).isEmpty } := by
        unfold preParseLine
        dsimp only
        rw [if_neg hcontinued, strip_eq, hparse]
        rfl
      have hparams := parseOne_params harg hset (.inr rfl) hparse
      obtain ⟨r', hrun, houtside, hvalue⟩ := @ih _
        { map := m, line := [], outside := r.outside || (trimRight pline).isEmpty } hparams
      rw [hturn]
      refine ⟨r', hrun, houtside, fun hlines => ?_⟩
      obtain ⟨hline, hrest⟩ := forall_mem_cons.mp hlines
      have hends : ¬ (trimRight pline).getLast? = some backslash := by
        intro hbackslash
        rw [hbackslash] at hcontinued
        exact hcontinued rfl
      unfold logicalLines
      rw [if_neg hends]
      exact hvalue hrest

end Runs

/-! ### The two readers side by side -/

/-- For the file `text`, whatever the parameter, its default and the octet in front of an empty line: both
readers stay within the lines, and they give the parameter the same value, unless `file` throws for another
parameter. -/
def Agrees (text : Octets) : Prop :=
  ∀ (before : UInt8) (m : ArgvMap) (arg theDefault : Octets) (lax : Bool), arg ≠ [] →
    m.params arg = some theDefault →
    ∃ r, preParseFile before m (some text) arg theDefault = .ok r ∧ r.outside = false ∧
      ∀ r', file m (some text) lax = .ok r' →
        r'.outside = false ∧ r'.map.params arg = r.map.params arg

/-- The files without empty lines, in which no line, continued lines put together, begins with a vertical tab
or a form feed behind other white space. -/
def PlainLines (text : Octets) : Prop :=
  (∀ pline ∈ getlines text, trimRight pline ≠ []) ∧
    ∀ line ∈ logicalLines [] (getlines text), ∀ c ∈ (line.dropWhile isLeading).head?, c ≠ 11 ∧ c ≠ 12

theorem varVal_fst (line : Octets) : (varVal ([45, 45] ++ line)).1 = line.takeWhile (· != 61) := by
  have hoption : ([45, 45] ++ line : Octets).take 2 = [45, 45] := rfl
  have hbehind : ([45, 45] ++ line : Octets).drop 2 = line := rfl
  unfold varVal splitEquals
  rw [if_pos hoption, hbehind]
  by_cases hequals : (61 : UInt8) ∈ line
  · rw [if_pos hequals]
  · rw [if_neg hequals]
    refine (takeWhile_eq_self_iff.mpr fun c hc => ?_).symm
    rw [bne_iff_ne]
    exact fun heq => hequals (heq ▸ hc)

section Behind

variable {arg val : Octets} {strip : Octets → Octets} {lines : List Octets}

theorem foldl_unassigned (h : ∀ line ∈ lines, (strip line).takeWhile (· != 61) ≠ arg) :
    lines.foldl (fun val line => valueBehind arg val (strip line)) val = val := by
  induction lines generalizing val with
  | nil => rfl
  | cons line lines ih =>
    obtain ⟨hline, hrest⟩ := forall_mem_cons.mp h
    rw [foldl_cons, ih hrest]
    unfold valueBehind
    rw [varVal_fst]
    exact if_neg hline

/-- Once a line assigns the parameter, its default is forgotten. -/
theorem foldl_assigned (h : ∃ line ∈ lines, (strip line).takeWhile (· != 61) = arg) (val' : Octets) :
    lines.foldl (fun val line => valueBehind arg val (strip line)) val =
      lines.foldl (fun val line => valueBehind arg val (strip line)) val' := by
  induction lines generalizing val val' with
  | nil =>
    obtain ⟨line, hline, -⟩ := h
    cases hline
  | cons line lines ih =>
    rw [foldl_cons, foldl_cons]
    by_cases hassigns : (strip line).takeWhile (· != 61) = arg
    · have hsame : valueBehind arg val (strip line) = valueBehind arg val' (strip line) := by
        unfold valueBehind
        rw [varVal_fst, if_pos hassigns, if_pos hassigns]
      rw [hsame]
    · obtain ⟨line', hmem, hline'⟩ := h
      rcases mem_cons.mp hmem with rfl | hmem
      · exact absurd hline' hassigns
      · exact ih ⟨line', hmem, hline'⟩ _

end Behind

/-- White space that `preParseFile` leaves in front of a line. -/
theorem isSpace_iff (c : UInt8) : isSpace c = true ↔ isLeading c = true ∨ c = 11 ∨ c = 12 := by
  simp only [isSpace, isLeading, or_eq_true, and_eq_true, decide_eq_true_eq, beq_iff_eq,
    UInt8.le_iff_toNat_le, ← UInt8.toNat_inj, UInt8.toNat_ofNat]
  omega

/-- A line on which the two readers strip the same white space. -/
theorem dropWhile_isSpace {line : Octets} (h : ∀ c ∈ (line.dropWhile isLeading).head?, c ≠ 11 ∧ c ≠ 12) :
    line.dropWhile isSpace = line.dropWhile isLeading := by
  induction line with
  | nil => rfl
  | cons c line ih =>
    by_cases hleading : isLeading c = true
    · rw [dropWhile_cons_of_pos hleading] at h ⊢
      rw [dropWhile_cons_of_pos (isSpace_of_isLeading hleading), ih h]
    · rw [dropWhile_cons_of_neg hleading] at h ⊢
      refine dropWhile_cons_of_neg fun hspace => ?_
      obtain ⟨hvt, hff⟩ := h c rfl
      rcases (isSpace_iff c).mp hspace with h' | h' | h'
      · exact hleading h'
      · exact hvt h'
      · exact hff h'

/-- `file` reads no name that begins with white space. -/
theorem trimmed_name_ne (line : Octets) {c : UInt8} {rest : Octets} (hspace : isSpace c = true) :
    (line.dropWhile isSpace).takeWhile (· != 61) ≠ c :: rest := by
  intro heq
  have hhead := head?_dropWhile_not isSpace line
  cases hstripped : line.dropWhile isSpace with
  | nil =>
    rw [hstripped] at heq
    cases heq
  | cons c' rest' =>
    rw [hstripped, takeWhile_cons] at heq
    rw [hstripped] at hhead
    split at heq
    · rw [(List.cons.inj heq).1] at hhead
      simp only [head?_cons] at hhead
      rw [hspace] at hhead
      cases hhead
    · cases heq

/-- **When `file` and `preParseFile` agree**: exactly on the files without empty lines and without vertical
tabs and form feeds at the beginning of a line. -/
theorem agrees_iff (text : Octets) : Agrees text ↔ PlainLines text := by
  constructor
  · intro hagrees
    have hlines : ∀ pline ∈ getlines text, trimRight pline ≠ [] := by
      obtain ⟨r, hrun, hinside, -⟩ := hagrees 0 { params := fun _ => some [] } [0] [] true (by decide) rfl
      obtain ⟨r', hrun', houtside, -⟩ := @preParseFile_run [0] [] (getlines text) 0 (by decide)
        { map := ArgvMap.set { params := fun _ => some [] } [0] [] } rfl
      have hsame : r = r' := Except.ok.inj (hrun.symm.trans hrun')
      rw [← hsame, hinside, Bool.false_or] at houtside
      intro pline hpline hempty
      have hany := any_eq_false.mp houtside.symm pline hpline
      exact hany (List.isEmpty_iff.mpr hempty)
    refine ⟨hlines, fun line hline c hc => ?_⟩
    by_contra hwhite
    have hwhite : c = 11 ∨ c = 12 := by
      by_contra hneither
      exact hwhite (not_or.mp hneither)
    -- the parameter that this line names is one that `file` never reads
    obtain ⟨rest, hrest⟩ := head?_eq_some_iff.mp hc
    have hspace : isSpace c = true := (isSpace_iff c).mpr (.inr hwhite)
    have hname : (c :: rest).takeWhile (· != 61) = c :: rest.takeWhile (· != 61) := by
      rcases hwhite with rfl | rfl <;> rfl
    have hunread : ∀ line ∈ logicalLines [] (getlines text),
        (line.dropWhile isSpace).takeWhile (· != 61) ≠ c :: rest.takeWhile (· != 61) :=
      fun line _ => trimmed_name_ne line hspace
    have hread : ∃ line ∈ logicalLines [] (getlines text),
        (line.dropWhile isLeading).takeWhile (· != 61) = c :: rest.takeWhile (· != 61) :=
      ⟨line, hline, by rw [hrest, hname]⟩
    -- so it keeps any default, where `preParseFile` forgets it
    have hdefault : ∀ val : Octets, val = (logicalLines [] (getlines text)).foldl (fun val line =>
        valueBehind (c :: rest.takeWhile (· != 61)) val (line.dropWhile isLeading)) [] := by
      intro val
      have hne : c :: rest.takeWhile (· != 61) ≠ [] := cons_ne_nil _ _
      obtain ⟨r, hrun, -, hvalue⟩ := hagrees 0 { params := fun _ => some val } _ val true hne rfl
      obtain ⟨r', hrun'⟩ := exists_file_run (getlines text) { map := { params := fun _ => some val } }
      obtain ⟨q, hq, -, hread'⟩ := @preParseFile_run (c :: rest.takeWhile (· != 61)) val (getlines text) 0 hne
        { map := ArgvMap.set { params := fun _ => some val } (c :: rest.takeWhile (· != 61)) val } (if_pos rfl)
      have hsame : r = q := Except.ok.inj (hrun.symm.trans hq)
      have hfile := (file_run hne hlines rfl hrun').2
      rw [foldl_unassigned hunread, (hvalue r' hrun').2, hsame, hread' hlines] at hfile
      rw [← Option.some.inj hfile]
      exact foldl_assigned hread []
    have htwo : ([] : Octets) = [0] := (hdefault []).trans (hdefault [0]).symm
    cases htwo
  · rintro ⟨hlines, hplain⟩ before m arg theDefault lax harg hset
    obtain ⟨r, hrun, houtside, hvalue⟩ := @preParseFile_run arg theDefault (getlines text) before harg
      { map := m.set arg theDefault } (if_pos rfl)
    refine ⟨r, hrun, ?_, fun r' hrun' => ?_⟩
    · rw [houtside, Bool.false_or, any_eq_false]
      intro pline hpline hempty
      exact hlines pline hpline (List.isEmpty_iff.mp hempty)
    · obtain ⟨hinside, hfile⟩ := file_run harg hlines hset hrun'
      refine ⟨hinside, ?_⟩
      rw [hfile, hvalue hlines]
      refine congrArg some (foldl_ext _ _ _ fun val line hline => ?_)
      rw [dropWhile_isSpace (hplain line hline)]

/-- A continued line, an empty line and a third one: `file` reads `a=1b`, `preParseFile` reads `a=1`, and
looks at the octet in front of the empty line. -/
theorem empty_line_disagrees : ¬ ∀ text, Agrees text := by
  intro h
  obtain ⟨r, hrun, hinside, -⟩ := h [97, 61, 49, 92, 10, 10, 98, 10] 0 { params := fun _ => some [] } [97] []
    true (by decide) rfl
  have houtside : (preParseFile 0 { params := fun _ => some [] } (some [97, 61, 49, 92, 10, 10, 98, 10]) [97]
      []).toOption.map (fun r => (r.outside, r.map.params [97])) = some (true, some [49]) := by
    decide
  rw [hrun] at houtside
  have hlooked : r.outside = true := congrArg Prod.fst (Option.some.inj houtside)
  rw [hinside] at hlooked
  cases hlooked

/-! ### Files with empty lines -/

/-- No line is empty inside a line that is continued, `cur` being what was put together so far, and none at
all if what stands in front of it in memory is a backslash. -/
def emptyLinesApart (before : UInt8) : Octets → List Octets → Bool
  | _, [] => true
  | cur, pline :: plines =>
    if trimRight pline = [] then before != backslash && cur.isEmpty && emptyLinesApart before [] plines
    else if (trimRight pline).getLast? = some backslash then
      emptyLinesApart before (cur ++ (trimRight pline).dropLast) plines
    else emptyLinesApart before [] plines

/-- The lines that are not empty. -/
def filledLines (plines : List Octets) : List Octets := plines.filter fun pline => !(trimRight pline).isEmpty

/-- **A file that both readers read in the same way**: the empty lines do no harm, and no line begins with a
vertical tab or a form feed behind other white space. -/
def ReadTheSame (before : UInt8) (text : Octets) : Prop :=
  emptyLinesApart before [] (getlines text) = true ∧
    ∀ line ∈ logicalLines [] (filledLines (getlines text)), ∀ c ∈ (line.dropWhile isLeading).head?, c ≠ 11 ∧ c ≠ 12

instance (before : UInt8) (text : Octets) : Decidable (ReadTheSame before text) :=
  inferInstanceAs (Decidable (_ ∧ _))

section EmptyLines

variable {arg : Octets} {before : UInt8} {plines : List Octets} {r q : Reading}

/-- `file` steps over them. -/
theorem file_filled (lax : Bool) (plines : List Octets) (r : Reading) :
    plines.foldlM (fileLine lax) r = (filledLines plines).foldlM (fileLine lax) r := by
  induction plines generalizing r with
  | nil => rfl
  | cons pline plines ih =>
    unfold filledLines
    rw [foldlM_cons, filter_cons]
    by_cases hempty : (trimRight pline).isEmpty = true
    · have hturn : fileLine lax r pline = .ok r := if_pos hempty
      rw [hturn, hempty]
      exact ih r
    · rw [not_eq_true] at hempty
      rw [hempty, Bool.not_false, if_pos rfl, foldlM_cons]
      exact congrArg _ (funext ih)

/-- For `preParseFile` an empty line assigns nothing. -/
theorem preParseLine_empty {pline : Octets} (hempty : trimRight pline = []) (hbefore : before ≠ backslash)
    (hline : r.line = []) : preParseLine before arg r pline = .ok { r with outside := true } := by
  obtain ⟨map, line, outside⟩ := r
  obtain rfl : line = [] := hline
  unfold preParseLine
  rw [hempty, if_neg (show ¬ ([] : Octets).getLast?.getD before = backslash from hbefore)]
  have houtside : (outside || ([] : Octets).isEmpty) = true := or_true outside
  rw [houtside]
  rfl

/-- It reads the same parameters without them. -/
theorem preParse_filled (hapart : emptyLinesApart before r.line plines = true) (hmap : r.map = q.map)
    (hline : r.line = q.line) {r' : Reading} (h : plines.foldlM (preParseLine before arg) r = .ok r') :
    ∃ q', (filledLines plines).foldlM (preParseLine before arg) q = .ok q' ∧ q'.map = r'.map := by
  induction plines generalizing r q with
  | nil =>
    obtain rfl := Except.ok.inj h
    exact ⟨q, rfl, hmap.symm⟩
  | cons pline plines ih =>
    unfold filledLines
    unfold emptyLinesApart at hapart
    rw [foldlM_cons] at h
    rw [filter_cons]
    by_cases hempty : trimRight pline = []
    · rw [if_pos hempty, and_eq_true, and_eq_true, bne_iff_ne, List.isEmpty_iff] at hapart
      obtain ⟨⟨hbefore, hcur⟩, hapart⟩ := hapart
      rw [preParseLine_empty hempty hbefore hcur] at h
      rw [hempty]
      exact @ih { r with outside := true } q (hcur ▸ hapart) hmap hline h
    · have hfilled : (!(trimRight pline).isEmpty) = true := by
        rw [not_eq_true', ← not_eq_true, List.isEmpty_iff]
        exact hempty
      rw [if_neg hempty] at hapart
      rw [if_pos hfilled, foldlM_cons]
      have hlast : (trimRight pline).getLast?.getD before = backslash ↔
          (trimRight pline).getLast? = some backslash := by
        rw [getLast?_eq_some_getLast hempty]
        exact Option.some_inj.symm
      by_cases hcontinued : (trimRight pline).getLast? = some backslash
      · have hturn : ∀ r, preParseLine before arg r pline = .ok { r with
            line := r.line ++ (trimRight pline).dropLast
            outside := r.outside || (trimRight pline).isEmpty } := fun r => if_pos (hlast.mpr hcontinued)
        rw [if_pos hcontinued] at hapart
        rw [hturn] at h
        rw [hturn]
        exact @ih { r with
          line := r.line ++ (trimRight pline).dropLast
          outside := r.outside || (trimRight pline).isEmpty } _ hapart hmap (by rw [hline]) h
      · have hturn : ∀ r : Reading, preParseLine before arg r pline = (do
            let line := trimRight (uncommented (r.line ++ trimRight pline))
            let stripped := line.dropWhile isLeading
            let line := if stripped = [] then line else stripped
            let m ← r.map.parseOne ([45, 45] ++ line) arg false
            .ok { map := m, line := [], outside := r.outside || (trimRight pline).isEmpty }) := fun r =>
          if_neg (mt hlast.mp hcontinued)
        rw [if_neg hcontinued] at hapart
        rw [hturn, hmap, hline] at h
        rw [hturn]
        dsimp only at h ⊢
        cases hparse : q.map.parseOne ([45, 45] ++
            (if (trimRight (uncommented (q.line ++ trimRight pline))).dropWhile isLeading = [] then
              trimRight (uncommented (q.line ++ trimRight pline))
            else (trimRight (uncommented (q.line ++ trimRight pline))).dropWhile isLeading)) arg false with
        | error e =>
          rw [hparse] at h
          cases h
        | ok m =>
          rw [hparse] at h
          exact @ih { map := m, line := [], outside := r.outside || (trimRight pline).isEmpty } _ hapart rfl rfl h

/-- **The two readers give a parameter the same value.** -/
theorem same_value {text theDefault : Octets} {m m' : ArgvMap} {lax : Bool} (hread : ReadTheSame before text)
    (harg : arg ≠ []) (hset : m.params arg = some theDefault) {r r' : Reading}
    (hfile : file m (some text) lax = .ok r)
    (hpre : preParseFile before m' (some text) arg theDefault = .ok r') :
    r.map.params arg = r'.map.params arg := by
  have hfilled : ∀ pline ∈ filledLines (getlines text), trimRight pline ≠ [] := by
    intro pline hpline hempty
    have hkept := (mem_filter.mp hpline).2
    rw [hempty] at hkept
    cases hkept
  unfold file at hfile
  dsimp only at hfile hpre
  rw [file_filled] at hfile
  obtain ⟨q', hq', hmap⟩ := preParse_filled hread.1 rfl rfl hpre
  obtain ⟨q, hq, -, hvalue⟩ := @preParseFile_run arg theDefault (filledLines (getlines text)) before harg
    { map := m'.set arg theDefault } (if_pos rfl)
  obtain rfl := Except.ok.inj (hq'.symm.trans hq)
  rw [← hmap, (file_run harg hfilled hset hfile).2, hvalue hfilled]
  refine congrArg some (foldl_ext _ _ _ fun val line hline => ?_)
  rw [dropWhile_isSpace (hread.2 line hline)]

end EmptyLines

/-! ### What is left alone -/

section Frame

variable {m m' : ArgvMap} {arg var val : Octets}

theorem set_params_of_ne (h : var ≠ arg) : (m.set arg val).params var = m.params var := if_neg h

/-- `parseOne` sets one parameter at most: the one that is named, and the one that it looks for. -/
theorem parseOne_frame {line parseOnly : Octets} {lax : Bool} (h : m.parseOne line parseOnly lax = .ok m')
    (hvar : (varVal line).1 ≠ var ∨ parseOnly ≠ [] ∧ parseOnly ≠ var) : m'.params var = m.params var := by
  have hcmds : (if line.head? = some 45 then m else { m with d_cmds := m.d_cmds ++ [line] }).params =
      m.params := by
    split <;> rfl
  unfold parseOne at h
  rw [← hcmds]
  generalize (if line.head? = some 45 then m else { m with d_cmds := m.d_cmds ++ [line] }) = m at h ⊢
  dsimp only at h
  split at h
  next hnamed =>
    have hne : var ≠ (varVal line).1 := by
      rcases hvar with hvar | ⟨hne, hvar⟩
      · exact hvar.symm
      · rw [hnamed.2.resolve_left hne]
        exact hvar.symm
    split at h
    · obtain rfl := Except.ok.inj h
      exact set_params_of_ne hne
    · split at h
      · obtain rfl := Except.ok.inj h
        rfl
      · cases h
  next =>
    obtain rfl := Except.ok.inj h
    rfl

/-- `preParseFile` sets the one parameter. -/
theorem preParseFile_frame {before : UInt8} {f : Option Octets} {theDefault : Octets} {r : Reading}
    (harg : arg ≠ []) (hvar : var ≠ arg) (h : preParseFile before m f arg theDefault = .ok r) :
    r.map.params var = m.params var := by
  cases f with
  | none =>
    obtain rfl := Except.ok.inj h
    exact set_params_of_ne hvar
  | some text =>
    have hlines : ∀ (plines : List Octets) (q : Reading), plines.foldlM (preParseLine before arg) q = .ok r →
        r.map.params var = q.map.params var := by
      intro plines
      induction plines with
      | nil =>
        intro q h
        rw [Except.ok.inj h]
      | cons pline plines ih =>
        intro q h
        rw [foldlM_cons] at h
        cases hturn : preParseLine before arg q pline with
        | error e =>
          rw [hturn] at h
          cases h
        | ok s =>
          rw [hturn] at h
          rw [ih s h]
          unfold preParseLine at hturn
          dsimp only at hturn
          split at hturn
          next => rw [← Except.ok.inj hturn]
          next =>
            cases hparse : q.map.parseOne _ arg false with
            | error e =>
              rw [hparse] at hturn
              cases hturn
            | ok m' =>
              rw [hparse] at hturn
              rw [← Except.ok.inj hturn]
              exact parseOne_frame hparse (.inr ⟨harg, hvar.symm⟩)
    rw [hlines _ _ h]
    exact set_params_of_ne hvar

/-- It does not throw. -/
theorem exists_preParseFile (before : UInt8) (m : ArgvMap) (f : Option Octets) (harg : arg ≠ [])
    (theDefault : Octets) : ∃ r, preParseFile before m f arg theDefault = .ok r := by
  cases f with
  | none => exact ⟨_, rfl⟩
  | some text =>
    obtain ⟨r, hrun, -⟩ := @preParseFile_run arg theDefault (getlines text) before harg
      { map := m.set arg theDefault } (if_pos rfl)
    exact ⟨r, hrun⟩

end Frame

end ArgvMap

end PowerDNS
