import Mathlib.Data.List.DropRight
import PowerDNS.Base.Serialize
import PowerDNS.Names.Reverse
import PowerDNS.Names.Text

/-!
# Zone files: `ZoneParserTNG`

The parser reads lines from a stack of files, and from a `$GENERATE` template while there is one. A line is
taken apart at blanks, tabs and newlines: the owner, unless the line starts with white space, then a TTL, a
class and a type, and what is left is the content, up to a semicolon. Content with an open parenthesis goes
on in the lines behind.

`turn` is what `get` does with one line. It is over (`ended`), goes on with the next line (`again`), or has a
record. A range of a line stands here as the text in it, together with all that comes behind its first octet
(`Part`), since nothing else is done with a range.
-/

namespace PowerDNS

open List

/-- `toCanonic` of `misc.hh`. -/
def toCanonic (zone domain : Octets) : Octets :=
  if domain = [64] then zone
  else if isCanonical domain then domain
  else domain ++ dot :: if zone ≠ [] ∧ zone.head? ≠ some dot then zone else []

/-- `unquotify` of `misc.cc`. -/
def unquotify (item : Octets) : Octets :=
  if item.length < 2 then item
  else
    let bpos := if item.head? = some 34 then 1 else 0
    let epos := if item.getLast? = some 34 then item.length - 1 else item.length
    (item.take epos).drop bpos

namespace ZoneParserTNG

/-! ### Lines -/

abbrev newline : UInt8 := 10

/-- `fgets(buffer, n + 1, fp)`: what is read, and what is left. -/
def fgets : Nat → Octets → Octets × Octets
  | 0, text => ([], text)
  | _ + 1, [] => ([], [])
  | n + 1, c :: text =>
    if c = newline then ([c], text)
    else
      let r := fgets n text
      (c :: r.1, r.2)

/-- The loop of `stringfgets`. What is read is a C string, so it ends at a NUL; `turns` is a bound on the
number of turns. -/
def stringfgetsFrom : Nat → Octets → Octets → Option (Octets × Octets)
  | 0, _, _ => none
  | turns + 1, line, text =>
    if text = [] then if line = [] then none else some (line, [])
    else
      let buffer := fgets 1023 text
      let seen := buffer.1.takeWhile (· ≠ 0)
      if newline ∈ seen then some (line ++ seen, buffer.2) else stringfgetsFrom turns (line ++ seen) buffer.2

/-- `stringfgets`: a line with its newline, and what is left of the file. -/
def stringfgets (text : Octets) : Option (Octets × Octets) := stringfgetsFrom (text.length + 1) [] text

/-- A file that is being read. -/
structure FileState where
  /-- What was not read yet. -/
  d_text : Octets
  d_filename : Octets
  d_lineno : Nat := 0

/-- `getLine`: a line of the file on top that has one; files that have none are closed. -/
def readLine : List FileState → Option Octets × List FileState
  | [] => (none, [])
  | f :: fs =>
    match stringfgets f.d_text with
    | some (line, rest) => (some line, { f with d_text := rest, d_lineno := f.d_lineno + 1 } :: fs)
    | none => readLine fs

/-- A range of a line: the text in it, and that and all behind it. -/
structure Part where
  text : Octets
  tail : Octets
  deriving DecidableEq

/-- The delimiters of `stringtok` and `vstringtok`. -/
def delimiters : Octets := [32, 9, newline]

/-- The loop of `vstringtok`; `cur` is what the token that is being read has so far, and `tail` the line from
its first octet on. -/
def vstringtokFrom : Octets → Octets → Octets → List Part
  | cur, tail, [] => if cur = [] then [] else [⟨cur, tail⟩]
  | cur, tail, c :: s =>
    if c ∈ delimiters then if cur = [] then vstringtokFrom [] [] s else ⟨cur, tail⟩ :: vstringtokFrom [] [] s
    else vstringtokFrom (cur ++ [c]) (if cur = [] then c :: s else tail) s

/-- `vstringtok(parts, line)`. -/
def vstringtok (line : Octets) : List Part := vstringtokFrom [] [] line

/-- `boost::trim`. -/
def trim (s : Octets) : Octets := (s.dropWhile isSpace).rdropWhile isSpace

/-- The position at which the loops of `chopComment` and `findAndElide` come to rest: that of the first `c`
that is not escaped and not between quotes, or the length. When the last octet is a backslash, the octet
behind it is skipped too, and the position is one more than the length. -/
def findUnquoted (c : UInt8) : (inQuote escaped : Bool) → Octets → Nat
  | _, false, [] => 0
  | _, true, [] => 1
  | inQuote, true, _ :: s => 1 + findUnquoted c inQuote false s
  | inQuote, false, d :: s =>
    if d = backslash then 1 + findUnquoted c inQuote true s
    else if d = 34 then 1 + findUnquoted c (!inQuote) false s
    else if d = c ∧ inQuote = false then 0
    else 1 + findUnquoted c inQuote false s

/-- `chopComment`; `resize` puts NULs behind a text that gets longer. -/
def chopComment (line : Octets) : Octets :=
  let pos := findUnquoted 59 false false line
  line.take pos ++ List.replicate (pos - line.length) 0

/-- `findAndElide`: `none` is the exception of `erase`, for a position behind the end. -/
def findAndElide (line : Octets) (c : UInt8) : Option (Bool × Octets) :=
  let pos := findUnquoted c false false line
  if pos = line.length then some (false, line)
  else if line.length < pos then none
  else some (true, line.eraseIdx pos)

/-! ### The parser -/

/-- Where an error is: the number of the line, and the file; nothing when all files are closed. -/
abbrev LineOfFile := Option (Nat × Octets)

/-- What `get` throws. -/
inductive ZoneError
  /-- "Unable to open file" -/
  | unableToOpen (fname : Octets)
  /-- "Unable to parse time specification" -/
  | timeSpecification (str : Octets) (place : LineOfFile)
  /-- "Can't parse zone line" -/
  | cantParse (line : Octets) (place : LineOfFile)
  /-- "Line with too little parts" -/
  | tooLittleParts (place : LineOfFile)
  /-- "Parsing zone content": the part "doesn't look like a qtype, stopping loop" -/
  | notAType (place : LineOfFile) (nextpart : Octets)
  /-- "Malformed line" -/
  | malformed (place : LineOfFile) (line : Octets)
  /-- `erase` throws `out_of_range`. -/
  | outOfRange
  deriving DecidableEq

/-- What the parser takes from its surroundings: the files, the types that are registered, in the order of
their numbers, and the text that `snprintf` prints with a format of which the language does not say what it
prints for an integer. -/
structure Surroundings where
  file : Octets → Option Octets
  namemap : List (UInt16 × Octets)
  snprintf : Octets → UInt32 → Octets

structure Parser where
  d_reldir : Octets := []
  d_line : Octets := []
  d_prevqname : Octets := []
  d_zonename : Octets
  d_defaultttl : UInt32 := 3600
  d_havedollarttl : Bool := false
  d_templatecounter : UInt32 := 0
  d_templatestop : UInt32 := 0
  d_templatestep : UInt32 := 0
  /-- The parts of `d_templateline`. -/
  d_templateparts : List Octets := []
  /-- The stack of files; the first one is on top. -/
  d_filestates : List FileState := []

/-- `getLineOfFile`. -/
def Parser.getLineOfFile (s : Parser) : LineOfFile := s.d_filestates.head?.map fun f => (f.d_lineno, f.d_filename)

/-- `stackFile`. -/
def stackFile (env : Surroundings) (fname : Octets) (s : Parser) : Except ZoneError Parser :=
  match env.file fname with
  | none => .error (.unableToOpen fname)
  | some text => .ok { s with d_filestates := { d_text := text, d_filename := fname } :: s.d_filestates }

/-- The constructor. -/
def create (env : Surroundings) (fname zname reldir : Octets) : Except ZoneError Parser :=
  stackFile env fname { d_reldir := reldir, d_zonename := toCanonic [] zname }

/-- `DNSRecordContent::TypeToNumber`; `none` is the exception. -/
def TypeToNumber (namemap : List (UInt16 × Octets)) (name : Octets) : Option UInt16 :=
  (namemap.find? fun i => pdnsIequals i.2 name).map Prod.fst

/-- `isdigit`. -/
def isDigit (c : UInt8) : Bool := 48 ≤ c && c ≤ 57

/-- The units of a time, as numbers of seconds. -/
def unitOf (c : UInt8) : Option UInt32 :=
  [(115, 1), (109, 60), (104, 3600), (100, 86400), (119, 604800), (121, 31536000)].lookup (dnsTolower c)

/-- `isTimeSpec`. -/
def isTimeSpec : Octets → Bool
  | [] => false
  | [c] => isDigit c || (unitOf c).isSome
  | c :: nextpart => isDigit c && isTimeSpec nextpart

/-- `makeTTLFromZone`; `none` is the exception. -/
def makeTTLFromZone (str : Octets) : Option UInt32 :=
  match str.getLast? with
  | none => some 0
  | some lc =>
    let val := UInt32.ofInt (atoi str)
    if isDigit lc then some val else (unitOf lc).map (val * ·)

/-! ### Templates -/

/-- `%d` of `sscanf`: the number, and what is left. -/
def scanInt (s : Octets) : Option (Int × Octets) :=
  let t := s.dropWhile isSpace
  let digits := if t.head? = some 45 ∨ t.head? = some 43 then t.tail else t
  if digits.head?.any isDigit then some (atoi t, digits.dropWhile isDigit) else none

/-- `sscanf(range, "%d-%d/%d", …)`, for numbers that were set before. -/
def scanRange (range : Octets) (counter stop step : UInt32) : UInt32 × UInt32 × UInt32 :=
  match scanInt range with
  | none => (counter, stop, step)
  | some (n, rest) =>
    match if rest.head? = some 45 then scanInt rest.tail else none with
    | none => (UInt32.ofInt n, stop, step)
    | some (m, rest) =>
      match if rest.head? = some 47 then scanInt rest.tail else none with
      | none => (UInt32.ofInt n, UInt32.ofInt m, step)
      | some (k, _) => (UInt32.ofInt n, UInt32.ofInt m, UInt32.ofInt k)

/-- `sscanf(spec, "%d,%d,%c", &offset, &width, &radix)`. -/
def scanSpec (spec : Octets) : Int × Int × UInt8 :=
  match scanInt spec with
  | none => (0, 0, 100)
  | some (offset, rest) =>
    match if rest.head? = some 44 then scanInt rest.tail else none with
    | none => (offset, 0, 100)
    | some (width, rest) =>
      match rest with
      | 44 :: radix :: _ => (offset, width, radix)
      | _ => (offset, width, 100)

/-- The digits of a number, those above 9 from `ten` on. -/
def digitsOf (base : Nat) (ten : UInt8) (n : Nat) : Octets :=
  if n = 0 then [48]
  else ((Nat.digits base n).map fun d =>
    if d < 10 then UInt8.ofNat (48 + d) else ten + UInt8.ofNat (d - 10)).reverse

/-- A number in the conversion `radix`, as its sign and its digits. -/
def converted (radix : UInt8) (n : UInt32) : Option (Octets × Octets) :=
  let i := toInt32 n.toNat
  if radix = 100 ∨ radix = 105 then some (if i < 0 then [45] else [], decimal i.natAbs)
  else if radix = 117 then some ([], decimal n.toNat)
  else if radix = 111 then some ([], digitsOf 8 65 n.toNat)
  else if radix = 120 then some ([], digitsOf 16 97 n.toNat)
  else if radix = 88 then some ([], digitsOf 16 65 n.toNat)
  else none

/-- `snprintf` into `tmp`, with the format that `snprintf(format, 11, "%%0%d%c", width, radix)` makes. A format
that is too long has no conversion left. A minus in the width puts the blanks behind. -/
def printed (env : Surroundings) (width : Int) (radix : UInt8) (n : UInt32) : Octets :=
  match if 8 ≤ (itoa width).length then none else converted radix n with
  | none => env.snprintf ((37 :: 48 :: (itoa width ++ [radix])).take 10) n
  | some p =>
    let missing := width.natAbs - (p.1.length + p.2.length)
    (if width < 0 then p.1 ++ p.2 ++ List.replicate missing 32
      else p.1 ++ List.replicate missing 48 ++ p.2).take 78

/-- Where the loop over the octets of a part is. -/
inductive TemplateMode
  | plain
  | escaped
  | brace
  | spec (sofar : Octets)
  deriving DecidableEq

/-- The loop over the octets of a part. -/
def expandFrom (env : Surroundings) (counter : UInt32) : TemplateMode → Octets → Octets
  | _, [] => []
  | .plain, c :: s =>
    if c = backslash then expandFrom env counter .escaped s
    else if c = 36 then
      if s.head? = some 123 then expandFrom env counter .brace s
      else decimal counter.toNat ++ expandFrom env counter .plain s
    else c :: expandFrom env counter .plain s
  | .escaped, c :: s => c :: expandFrom env counter .plain s
  | .brace, _ :: s => expandFrom env counter (.spec []) s
  | .spec sofar, c :: s =>
    if c = 125 then
      let spec := scanSpec sofar
      printed env spec.2.1 spec.2.2 (counter + UInt32.ofInt spec.1) ++ expandFrom env counter .plain s
    else expandFrom env counter (.spec (sofar ++ [c])) s

/-- The loop of `getTemplateLine` over the parts. -/
def expandParts (env : Surroundings) (counter : UInt32) (parts : List Octets) : Octets :=
  joinWith 32 (parts.map (expandFrom env counter .plain))

/-- `getTemplateLine`; `none` is that there is no line. -/
def getTemplateLine (env : Surroundings) (s : Parser) : Option Parser :=
  if s.d_templateparts = [] ∨ s.d_templatestop < s.d_templatecounter then none
  else
    some { s with
      d_line := expandParts env s.d_templatecounter s.d_templateparts
      d_templatecounter := s.d_templatecounter + s.d_templatestep }

/-- `getLine`. -/
def getLine (s : Parser) : Option Parser :=
  match readLine s.d_filestates with
  | (none, _) => none
  | (some line, fs) => some { s with d_line := line, d_filestates := fs }

/-! ### `get` -/

/-- What became of a line. -/
inductive Turn
  | ended
  | again (s : Parser)
  | got (rr : TextRR) (s : Parser)

/-- The time of a text, or the exception. -/
def timeOf (s : Parser) (str : Octets) : Except ZoneError UInt32 :=
  match makeTTLFromZone str with
  | none => .error (.timeSpecification str s.getLineOfFile)
  | some val => .ok val

/-- A line that starts with a dollar. -/
def command (env : Surroundings) (s : Parser) (first : Part) (parts : List Part) : Except ZoneError Parser :=
  match parts with
  | [] => .error (.cantParse s.d_line s.getLineOfFile)
  | second :: rest =>
    if pdnsIequals first.text (ascii "$TTL") then do
      let ttl ← timeOf s (second.text.rdropWhile (· = 59))
      pure { s with d_defaultttl := ttl, d_havedollarttl := true }
    else if pdnsIequals first.text (ascii "$INCLUDE") then
      let fname := unquotify second.text
      stackFile env
        (if fname ≠ [] ∧ fname.head? ≠ some 47 ∧ s.d_reldir ≠ [] then s.d_reldir ++ 47 :: fname else fname) s
    else if pdnsIequals first.text (ascii "$ORIGIN") then
      pure { s with d_zonename := toCanonic [] second.text }
    else if pdnsIequals first.text (ascii "$GENERATE") ∧ rest ≠ [] then
      -- $GENERATE 1-127 $ CNAME $.0
      let range := scanRange second.text s.d_templatecounter 0 1
      pure { s with
        d_templatecounter := range.1, d_templatestop := range.2.1, d_templatestep := range.2.2
        d_templateparts := rest.map Part.text }
    else .error (.cantParse s.d_line s.getLineOfFile)

/-- An owner as it is written, in full. -/
def ownerName (d_zonename qname : Octets) : Octets :=
  if qname = [64] then d_zonename
  else if isCanonical qname then qname
  else if d_zonename = [] ∨ d_zonename.head? ≠ some dot then qname ++ dot :: d_zonename
  else qname ++ d_zonename

/-- What the loop over the fields behind the owner has found. -/
structure Fields where
  ttl : UInt32
  haveTTL : Bool := false
  qtype : Option UInt16 := none
  /-- The line from the part on that was looked at last. -/
  tail : Octets := []

/-- The loop over the fields behind the owner. -/
def readFields (env : Surroundings) (s : Parser) : Fields → List Part → Except ZoneError Fields
  | fields, [] => .ok fields
  | fields, p :: parts =>
    let fields := { fields with tail := p.tail }
    if p.text = [] ∨ 59 ∈ p.text then .ok fields
    else if pdnsIequals p.text (ascii "IN") then readFields env s fields parts
    else if !fields.haveTTL && fields.qtype.isNone && isTimeSpec p.text then do
      let ttl ← timeOf s p.text
      readFields env s { fields with ttl, haveTTL := true } parts
    else if fields.qtype.isSome then .ok fields
    else
      match TypeToNumber env.namemap p.text with
      | some qtype => readFields env s { fields with qtype := some qtype } parts
      | none => .error (.notAType s.getLineOfFile p.text)

/-- The loop that reads on to a closing parenthesis; `turns` is a bound on the number of lines. -/
def readOn : Nat → Parser → Octets → Except ZoneError (Octets × Parser)
  | 0, s, content => .ok (content, s)
  | turns + 1, s, content =>
    match getLine s with
    | none => .ok (content, { s with d_filestates := [] })
    | some s =>
      match findAndElide (trim (chopComment (s.d_line.rdropWhile isSpace))) 41 with
      | none => .error .outOfRange
      | some (ended, line) =>
        let s := { s with d_line := line }
        if ended then .ok (content ++ 32 :: line, s) else readOn turns s (content ++ 32 :: line)

/-- The octets that are left in the files, and the number of these. -/
def Parser.unread (s : Parser) : Nat := (s.d_filestates.map fun f => f.d_text.length + 1).sum

/-- The content behind the fields, without comments and parentheses. -/
def readContent (s : Parser) (tail : Octets) : Except ZoneError (Octets × Parser) :=
  let content := trim (chopComment tail)
  let content := if content = [64] then s.d_zonename else content
  match findAndElide content 40 with
  | none => .error .outOfRange
  | some (false, content) => .ok (content, s)
  | some (true, content) =>
    match findAndElide content 41 with
    | none => .error .outOfRange
    | some (true, content) => .ok (content, s)
    | some (false, content) => readOn s.unread s content

/-- The parts of a SOA record behind the two names: all of them are times. -/
def soaTimes (s : Parser) : List Octets → Except ZoneError (List UInt32)
  | [] => .ok []
  | part :: parts => do
    let time ← timeOf s part
    let times ← soaTimes s parts
    pure (time :: times)

/-- What is done with a content that is that of its type. -/
def completeContent (s : Parser) (qtype : UInt16) (content : Octets) : Except ZoneError (Octets × Parser) :=
  if qtype = QType.MX then
    match stringtokOn content delimiters with
    | [prio, name] => .ok (prio ++ 32 :: toCanonic s.d_zonename name, s)
    | _ => .ok (content, s)
  else if qtype = QType.NS ∨ qtype = QType.CNAME ∨ qtype = QType.PTR ∨ qtype = QType.SRV ∨ qtype = QType.AFSDB then
    .ok (toCanonic s.d_zonename content, s)
  else if qtype = QType.SOA then
    match stringtokOn content delimiters with
    | mname :: rname :: parts => do
      let times ← soaTimes s parts
      pure (joinWith 32 (toCanonic s.d_zonename mname :: toCanonic s.d_zonename rname ::
          times.map fun time => decimal time.toNat),
        -- the minimum
        match times[4]? with
        | some minimum => if s.d_havedollarttl then s else { s with d_defaultttl := minimum }
        | none => s)
    | parts => .ok (joinWith 32 parts, s)
  else .ok (content, s)

/-- A line with a record, from behind its owner on. -/
def readRecord (env : Surroundings) (s : Parser) (rr : TextRR) (qname : Octets) (parts : List Part) :
    Except ZoneError Turn := do
  let qname := ownerName s.d_zonename qname
  let s := { s with d_prevqname := qname }
  if parts = [] then .error (.tooLittleParts s.getLineOfFile)
  else
    let fields ← readFields env s { ttl := s.d_defaultttl } parts
    match fields.qtype with
    | none => .error (.malformed s.getLineOfFile s.d_line)
    | some qtype =>
      let read ← readContent s fields.tail
      let completed ← completeContent read.2 qtype read.1
      pure (.got { rr with qname, qtype, ttl := fields.ttl, content := completed.1, d_place := .ANSWER }
        completed.2)

/-- What `get` does with a line. -/
def readTurn (env : Surroundings) (s : Parser) (rr : TextRR) : Except ZoneError Turn :=
  let s := { s with d_line := s.d_line.rdropWhile fun c => c ∈ ([32, 13, newline, 26] : Octets) }
  match vstringtok s.d_line with
  | [] => .ok (.again s)
  | first :: parts =>
    if first.text.head? = some 59 then .ok (.again s)
    else if s.d_line.head? = some 36 then (command env s first parts).map .again
    else if s.d_line.head?.any isSpace then readRecord env s rr s.d_prevqname (first :: parts)
    else readRecord env s rr first.text parts

/-- One turn of `get(rr)`. -/
def turn (env : Surroundings) (s : Parser) (rr : TextRR) : Except ZoneError Turn :=
  match getTemplateLine env s with
  | some s => readTurn env s rr
  | none =>
    match getLine s with
    | some s => readTurn env s rr
    | none => .ok .ended

/-- All records that `get` gives, until it gives false or throws; nothing if that takes more than so many
turns. -/
def readAll (env : Surroundings) : Nat → Parser → TextRR → Option (List TextRR × Option ZoneError)
  | 0, _, _ => none
  | turns + 1, s, rr =>
    match turn env s rr with
    | .error e => some ([], some e)
    | .ok .ended => some ([], none)
    | .ok (.again s) => readAll env turns s rr
    | .ok (.got rr s) => (readAll env turns s rr).map fun r => (rr :: r.1, r.2)

/-! ### Reading a line -/

section Lines

variable {l rest : Octets}

theorem fgets_line (hl : newline ∉ l) {n : Nat} (hn : l.length < n) :
    fgets n (l ++ newline :: rest) = (l ++ [newline], rest) := by
  induction l generalizing n with
  | nil =>
    obtain ⟨n, rfl⟩ : ∃ k, n = k + 1 := Nat.exists_eq_succ_of_ne_zero (Nat.ne_of_gt hn)
    rfl
  | cons c l ih =>
    obtain ⟨n, rfl⟩ : ∃ k, n = k + 1 := Nat.exists_eq_succ_of_ne_zero (Nat.ne_of_gt (Nat.zero_lt_of_lt hn))
    have hc : c ≠ newline := fun h => hl (h ▸ mem_cons_self)
    rw [cons_append, fgets, if_neg hc, ih (fun h => hl (mem_cons_of_mem c h)) (Nat.lt_of_succ_lt_succ hn)]
    rfl

theorem fgets_full (hl : newline ∉ l) {n : Nat} (hn : n ≤ l.length) :
    fgets n (l ++ rest) = (l.take n, l.drop n ++ rest) := by
  induction l generalizing n with
  | nil =>
    obtain rfl := Nat.le_zero.mp hn
    rfl
  | cons c l ih =>
    cases n with
    | zero => rfl
    | succ n =>
      have hc : c ≠ newline := fun h => hl (h ▸ mem_cons_self)
      rw [cons_append, fgets, if_neg hc,
        ih (fun h => hl (mem_cons_of_mem c h)) (Nat.le_of_succ_le_succ hn)]
      rfl

theorem takeWhile_of_plain {t : Octets} (h : 0 ∉ t) : t.takeWhile (· ≠ 0) = t :=
  takeWhile_eq_self_iff.mpr fun _ hc => decide_eq_true fun heq => h (heq ▸ hc)

theorem stringfgetsFrom_line (hl : newline ∉ l) (hzero : 0 ∉ l) {turns : Nat} (hturns : l.length < turns)
    (line : Octets) :
    stringfgetsFrom turns line (l ++ newline :: rest) = some (line ++ (l ++ [newline]), rest) := by
  induction turns generalizing l line with
  | zero => cases hturns
  | succ turns ih =>
    rw [stringfgetsFrom, if_neg (by simp)]
    rcases Nat.lt_or_ge l.length 1023 with hlt | hge
    · rw [fgets_line hl hlt]
      dsimp only
      rw [takeWhile_of_plain (by simpa using ⟨hzero, by decide⟩)]
      simp
    · -- the buffer is full before the line is over
      rw [fgets_full hl hge]
      dsimp only
      rw [takeWhile_of_plain fun h => hzero (mem_of_mem_take h), if_neg fun h => hl (mem_of_mem_take h),
        ih (fun h => hl (mem_of_mem_drop h)) (fun h => hzero (mem_of_mem_drop h))
          (by rw [length_drop]; omega)]
      rw [append_assoc, ← append_assoc (l.take 1023), take_append_drop]

/-- **A line** is read with its newline, however long it is. -/
theorem stringfgets_line (hl : newline ∉ l) (hzero : 0 ∉ l) :
    stringfgets (l ++ newline :: rest) = some (l ++ [newline], rest) :=
  stringfgetsFrom_line hl hzero (by simp) []

end Lines

/-! ### Tokens -/

section Tokens

variable {w s cur tail : Octets} {d : UInt8}

theorem vstringtokFrom_append (hw : ∀ c ∈ w, c ∉ delimiters) (hd : d ∈ delimiters) (hne : cur ++ w ≠ []) :
    vstringtokFrom cur tail (w ++ d :: s) =
      ⟨cur ++ w, if cur = [] then w ++ d :: s else tail⟩ :: vstringtok s := by
  induction w generalizing cur tail with
  | nil =>
    rw [append_nil] at hne ⊢
    rw [nil_append, vstringtokFrom, if_pos hd, if_neg hne, if_neg hne]
    rfl
  | cons c w ih =>
    rw [cons_append, vstringtokFrom, if_neg (hw c mem_cons_self),
      ih (fun c' hc' => hw c' (mem_cons_of_mem c hc')) (by simp), if_neg (by simp), append_assoc]
    rfl

/-- The first token of a line. -/
theorem vstringtok_append (hw : ∀ c ∈ w, c ∉ delimiters) (hne : w ≠ []) (hd : d ∈ delimiters) :
    vstringtok (w ++ d :: s) = ⟨w, w ++ d :: s⟩ :: vstringtok s :=
  vstringtokFrom_append hw hd hne

theorem vstringtokFrom_cons (hne : cur ≠ []) :
    ∃ t ts, vstringtokFrom cur tail s = ⟨cur ++ t, tail⟩ :: ts := by
  induction s generalizing cur with
  | nil => exact ⟨[], [], by rw [vstringtokFrom, if_neg hne, append_nil]⟩
  | cons c s ih =>
    simp only [vstringtokFrom, if_neg hne]
    split
    · exact ⟨[], _, by rw [append_nil]⟩
    · obtain ⟨t, ts, h⟩ := @ih (cur ++ [c]) (by simp)
      exact ⟨c :: t, ts, by rw [h, append_assoc]; rfl⟩

/-- Behind the first token of a text that starts with no delimiter is the whole text. -/
theorem vstringtok_cons {c : UInt8} (hc : c ∉ delimiters) :
    ∃ t ts, vstringtok (c :: s) = ⟨c :: t, c :: s⟩ :: ts := by
  unfold vstringtok
  rw [vstringtokFrom, if_neg hc, if_pos rfl]
  exact vstringtokFrom_cons (by simp)

/-- The texts are the tokens that `stringtok` gives. -/
theorem map_text_vstringtokFrom (cur tail s : Octets) :
    (vstringtokFrom cur tail s).map Part.text = stringtokOnLoop delimiters cur s := by
  induction s generalizing cur tail with
  | nil =>
    rw [vstringtokFrom, stringtokOnLoop]
    split
    · rfl
    · rfl
  | cons c s ih =>
    rw [vstringtokFrom, stringtokOnLoop]
    split
    · split
      · exact ih [] []
      · exact congrArg (cur :: ·) (ih [] [])
    · exact ih _ _

theorem map_text_vstringtok (s : Octets) : (vstringtok s).map Part.text = stringtokOn s delimiters :=
  map_text_vstringtokFrom [] [] s

end Tokens

/-! ### Comments and parentheses -/

section Unquoted

variable {c : UInt8} {w s : Octets}

/-- What has nothing to look for does not stop the search. -/
theorem findUnquoted_append (hw : ∀ d ∈ w, d ≠ backslash ∧ d ≠ 34 ∧ d ≠ c) (inQuote : Bool) :
    findUnquoted c inQuote false (w ++ s) = w.length + findUnquoted c inQuote false s := by
  induction w with
  | nil => exact (Nat.zero_add _).symm
  | cons d w ih =>
    obtain ⟨hback, hquote, hne⟩ := hw d mem_cons_self
    rw [cons_append, findUnquoted, if_neg hback, if_neg hquote, if_neg fun h => hne h.1,
      ih fun d' hd' => hw d' (mem_cons_of_mem d hd'), length_cons]
    omega

theorem chopComment_of_none (h : findUnquoted 59 false false s = s.length) : chopComment s = s := by
  unfold chopComment
  dsimp only
  rw [h, take_length, Nat.sub_self]
  exact append_nil s

theorem findAndElide_of_none (h : findUnquoted c false false s = s.length) :
    findAndElide s c = some (false, s) := if_pos h

theorem trim_of_plain (hhead : ∀ d ∈ s.head?, isSpace d = false) (hlast : ∀ d ∈ s.getLast?, isSpace d = false) :
    trim s = s := by
  have hdrop : s.dropWhile isSpace = s := by
    cases s with
    | nil => rfl
    | cons d s => exact dropWhile_cons_of_neg (by rw [hhead d rfl]; exact Bool.false_ne_true)
  unfold trim
  rw [hdrop, rdropWhile_eq_self_iff]
  intro hne
  rw [hlast _ (getLast?_eq_some_getLast hne)]
  exact Bool.false_ne_true

end Unquoted

/-! ### Runs -/

/-- More turns change nothing when there were enough. -/
theorem readAll_mono {env : Surroundings} {turns : Nat} {s : Parser} {rr : TextRR}
    {r : List TextRR × Option ZoneError} (h : readAll env turns s rr = some r) (more : Nat) :
    readAll env (turns + more) s rr = some r := by
  induction turns generalizing s rr r with
  | zero => cases h
  | succ turns ih =>
    rw [Nat.add_right_comm]
    unfold readAll at h ⊢
    cases hturn : turn env s rr with
    | error e => rwa [hturn] at h
    | ok t =>
      rw [hturn] at h
      cases t with
      | ended => exact h
      | again s => exact ih h
      | got rr s =>
        obtain ⟨r', hr', rfl⟩ := Option.map_eq_some_iff.mp h
        exact congrArg (Option.map _) (ih hr')

end ZoneParserTNG

end PowerDNS
