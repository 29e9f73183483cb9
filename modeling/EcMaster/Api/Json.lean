import EcMaster.Lib.CText

/-!
# The JSON tokenizer

`libecmaster/api/ecm_json.c`: the one-line requests of `ctl.sock` and the
allowlist file are checked and cut into a flat token array by
`ecm_json_parse`; everything else reads that array.

The tokenizer is recursive descent over a text of `len` bytes.  It moves one
position forward and appends tokens; a failure leaves the position where it
is, and that position is what the caller reports.  `value` and `container`
call each other, at most `ECM_JSON_MAX_DEPTH` deep.  Here `value` is
recursive in the number of levels that are left, and a container gets the
parser of its elements as an argument.  The loops carry fuel: every turn of
a loop moves the position by one at least, so `len` turns are enough.

An index that is `-1` in the source is an `Option Nat` here: the parent of
the root, and the result of a function that found nothing.
-/

namespace EcMaster.Api

open EcMaster.ByteImage EcMaster.CText

/-- `ecm_jtype_t`; `undef` is the zero of a slot that was never filled. -/
inductive JType where
  | undef | obj | arr | str | num | true | false | null
deriving DecidableEq, Repr

/-- `ecm_jtok_t`: `[start, stop)` of the text, without the quotes of a
string. -/
structure Tok where
  type : JType
  start : Nat
  stop : Nat
  size : Nat
  parent : Option Nat
deriving DecidableEq, Repr

/-- Slot `i` of the token array. -/
def tokAt (t : List Tok) (i : Nat) : Tok :=
  t.getD i { type := .undef, start := 0, stop := 0, size := 0, parent := some 0 }

/-- The negative results of `ecm_json_parse`: `-1`, `-2` and `-3`. -/
inductive JErr where
  | badText | tooManyTokens | tooDeep
deriving DecidableEq, Repr

/-- `ECM_JSON_MAX_DEPTH`. -/
def jsonMaxDepth : Nat := 16

/-- `jp_t`, the part that changes.  `err` is `none` where the source has
`0`. -/
structure Jp where
  pos : Nat
  t : List Tok
  err : Option JErr
deriving DecidableEq, Repr

/-- The state with token `k` closed at `i`. -/
def Jp.close (p : Jp) (k i : Nat) : Jp :=
  { p with t := p.t.modify k fun x => { x with stop := i } }

/-- `p->t[k].size++`. -/
def Jp.grow (p : Jp) (k : Nat) : Jp :=
  { p with t := p.t.modify k fun x => { x with size := x.size + 1 } }

/-- `p->pos++`. -/
def Jp.bump (p : Jp) : Jp := { p with pos := p.pos + 1 }

/-- What a parsing function returns: the index of its token, or nothing. -/
abbrev Parsed := Option Nat × Jp

def quote : UInt8 := 34
def backslash : UInt8 := 92

def isBlank (c : UInt8) : Bool := c == 32 || c == 9 || c == 10 || c == 13

def isDigit (c : UInt8) : Bool := ch '0' ≤ c && c ≤ ch '9'

def isHex (c : UInt8) : Bool :=
  isDigit c || (ch 'a' ≤ c && c ≤ ch 'f') || (ch 'A' ≤ c && c ≤ ch 'F')

/-- `strchr("\"\\/bfnrt", e)`: it also finds the NUL byte that ends the
list. -/
def isEscape (e : UInt8) : Bool :=
  e ∈ quote :: backslash :: txt "/bfnrt" ++ [0]

section Parse

variable (s : Image) (len max : Nat)

/-- `ws`. -/
def ws (p : Jp) : Jp := { p with pos := scan isBlank s len len p.pos }

/-- `tok`. -/
def tok (p : Jp) (type : JType) (start : Nat) (parent : Option Nat) : Parsed :=
  if max ≤ p.t.length then (none, { p with err := some .tooManyTokens })
  else (some p.t.length,
    { p with t := p.t ++ [{ type, start, stop := start, size := 0, parent }] })

/-- The loop of `string`, for the token `k`. -/
def stringLoop (k : Nat) : Nat → Jp → Parsed
  | 0, p => (none, p)
  | fuel + 1, p =>
      if p.pos < len then
        let c := s p.pos
        if c = quote then (some k, (p.close k p.pos).bump)
        else if c < 0x20 then (none, p)
        else if c = backslash then
          let p := p.bump
          if len ≤ p.pos then (none, p)
          else if s p.pos = ch 'u' then
            if len ≤ p.pos + 4 then (none, p)
            else if (slice s (p.pos + 1) 4).all isHex then
              stringLoop k fuel { p with pos := p.pos + 5 }
            else (none, p)
          else if isEscape (s p.pos) then stringLoop k fuel p.bump
          else (none, p)
        else stringLoop k fuel p.bump
      else (none, p)

/-- `string`, at the opening quote. -/
def string (p : Jp) (parent : Option Nat) : Parsed :=
  match tok max p .str (p.pos + 1) parent with
  | (none, p) => (none, p)
  | (some k, p) => stringLoop s len k len p.bump

/-- The digits behind a decimal point or an exponent: one at least. -/
def fraction (i : Nat) : Option Nat :=
  if i < len && isDigit (s i) then some (scan isDigit s len len i) else none

/-- The position behind a number, `none` where the text is not one. -/
def numberEnd (i : Nat) : Option Nat :=
  let i := if i < len && s i == ch '-' then i + 1 else i
  if len ≤ i then none
  else
    let whole :=
      if s i = ch '0' then some (i + 1)
      else if ch '1' ≤ s i ∧ s i ≤ ch '9' then some (scan isDigit s len len i)
      else none
    whole.bind fun i =>
    (if i < len && s i == ch '.' then fraction s len (i + 1) else some i).bind fun i =>
    if i < len && (s i == ch 'e' || s i == ch 'E') then
      let i := i + 1
      let i := if i < len && (s i == ch '+' || s i == ch '-') then i + 1 else i
      fraction s len i
    else some i

/-- `number`.  The position moves only when the whole number was read. -/
def number (p : Jp) (parent : Option Nat) : Parsed :=
  match tok max p .num p.pos parent with
  | (none, p) => (none, p)
  | (some k, p) =>
      match numberEnd s len p.pos with
      | none => (none, p)
      | some i => (some k, { p.close k i with pos := i })

/-- `literal`. -/
def literal (p : Jp) (parent : Option Nat) (w : Text) (type : JType) : Parsed :=
  if len < p.pos + w.length ∨ slice s p.pos w.length ≠ w then (none, p)
  else
    match tok max p type p.pos parent with
    | (none, p) => (none, p)
    | (some k, p) =>
        let p := { p with pos := p.pos + w.length }
        (some k, p.close k p.pos)

/-- The name and the colon of a member of object `k`; `false` when they are
not there. -/
def memberName (k : Nat) (p : Jp) : Bool × Jp :=
  if len ≤ p.pos ∨ s p.pos ≠ quote then (false, p)
  else
    match string s len max p (some k) with
    | (none, p) => (false, p)
    | (some _, p) =>
        let p := ws s len (p.grow k)
        if len ≤ p.pos ∨ s p.pos ≠ ch ':' then (false, p)
        else (true, ws s len p.bump)

/-- The byte that closes a container. -/
def closing (obj : Bool) : UInt8 := if obj then ch '\x7d' else ch ']'

/-- The loop of `container`, for the token `k`; `value` reads one element. -/
def containerLoop (value : Jp → Option Nat → Parsed) (k : Nat) (obj : Bool) :
    Nat → Jp → Parsed
  | 0, p => (none, p)
  | fuel + 1, p =>
      let named := if obj then memberName s len max k (ws s len p) else (true, ws s len p)
      if named.1 = false then (none, named.2)
      else
        match value named.2 (some k) with
        | (none, p) => (none, p)
        | (some _, p) =>
            let p := ws s len (p.grow k)
            if len ≤ p.pos then (none, p)
            else if s p.pos = ch ',' then containerLoop value k obj fuel p.bump
            else if s p.pos = closing obj then (some k, p.bump.close k (p.pos + 1))
            else (none, p)

/-- `container`, below the depth limit. -/
def container (value : Jp → Option Nat → Parsed) (p : Jp) (parent : Option Nat)
    (obj : Bool) : Parsed :=
  match tok max p (if obj then .obj else .arr) p.pos parent with
  | (none, p) => (none, p)
  | (some k, p) =>
      let p := ws s len p.bump
      if p.pos < len ∧ s p.pos = closing obj then (some k, p.bump.close k (p.pos + 1))
      else containerLoop s len max value k obj (len + 1) p

/-- `value` without its recursion: `nested` reads a container. -/
def valueOf (nested : Jp → Option Nat → Bool → Parsed) (p : Jp) (parent : Option Nat) :
    Parsed :=
  let p := ws s len p
  if len ≤ p.pos then (none, p)
  else
    let c := s p.pos
    if c = ch '\x7b' then nested p parent true
    else if c = ch '[' then nested p parent false
    else if c = quote then string s len max p parent
    else if c = ch '-' ∨ (ch '0' ≤ c ∧ c ≤ ch '9') then number s len max p parent
    else if c = ch 't' then literal s len max p parent (txt "true") .true
    else if c = ch 'f' then literal s len max p parent (txt "false") .false
    else if c = ch 'n' then literal s len max p parent (txt "null") .null
    else (none, p)

/-- `value` with `left` levels of nesting to go: at `0` a container is too
deep. -/
def value : Nat → Jp → Option Nat → Parsed
  | 0 => valueOf s len max fun p _ _ => (none, { p with err := some .tooDeep })
  | left + 1 => valueOf s len max (container s len max (value left))

/-- `ecm_json_parse`: the tokens, or the error and its position. -/
def ecmJsonParse : Except (JErr × Nat) (List Tok) :=
  match value s len max jsonMaxDepth { pos := 0, t := [], err := none } none with
  | (none, p) => .error (p.err.getD .badText, p.pos)
  | (some _, p) =>
      let p := ws s len p
      if p.pos ≠ len then .error (p.err.getD .badText, p.pos) else .ok p.t

end Parse

/-! ## Reading the token array -/

/-- Whether the chain of parents from `a` on meets `i`. -/
def below (t : List Tok) (i : Nat) : Nat → Option Nat → Bool
  | 0, _ => false
  | _, none => false
  | fuel + 1, some a => a = i || below t i fuel (tokAt t a).parent

/-- The loop of `ecm_json_skip`. -/
def skipLoop (t : List Tok) (i : Nat) : Nat → Nat → Nat
  | 0, j => j
  | fuel + 1, j =>
      if j < t.length then
        if below t i t.length (tokAt t j).parent then skipLoop t i fuel (j + 1) else j
      else j

/-- `ecm_json_skip`. -/
def ecmJsonSkip (t : List Tok) (i : Nat) : Nat := skipLoop t i t.length (i + 1)

/-- The loop of `ecm_json_get`: `m` members from token `i` on. -/
def memberLoop (s : Image) (t : List Tok) (key : Text) : Nat → Nat → Option Nat
  | 0, _ => none
  | m + 1, i =>
      if i < t.length then
        let k := tokAt t i
        if t.length ≤ i + 1 then none
        else if k.type = .str ∧ slice s k.start (k.stop - k.start) = key then some (i + 1)
        else memberLoop s t key m (ecmJsonSkip t (i + 1))
      else none

/-- `ecm_json_get`. -/
def ecmJsonGet (s : Image) (t : List Tok) (obj : Nat) (key : Text) : Option Nat :=
  if t.length ≤ obj ∨ (tokAt t obj).type ≠ .obj then none
  else memberLoop s t key ((tokAt t obj).size / 2) (obj + 1)

/-- The byte that the text at `i` stands for, and the position of the last
byte it takes. -/
def unescape (s : Image) (i : Nat) : UInt8 × Nat :=
  if s i ≠ backslash then (s i, i)
  else
    let e := s (i + 1)
    if e = ch 'b' then (8, i + 1)
    else if e = ch 'f' then (12, i + 1)
    else if e = ch 'n' then (10, i + 1)
    else if e = ch 'r' then (13, i + 1)
    else if e = ch 't' then (9, i + 1)
    else if e = ch 'u' then
      let u := (strtoll 16 (cstr (slice s (i + 2) 4))).value
      (if 0 < u ∧ u < 0x80 then UInt8.ofNat u.toInt.toNat else ch '?', i + 5)
    else (e, i + 1)

/-- The loop of `ecm_json_str`. -/
def strLoop (s : Image) (stop cap : Nat) : Nat → Nat → Text → Option Text
  | 0, _, out => some out
  | fuel + 1, i, out =>
      if i < stop then
        let c := unescape s i
        if cap ≤ out.length + 1 then none
        else strLoop s stop cap fuel (c.2 + 1) (out ++ [c.1])
      else some out

/-- `ecm_json_str`: the bytes stored before the NUL.  One of them may be NUL
itself, so a reader of the buffer sees `cstr` of it. -/
def ecmJsonStr (s : Image) (tk : Tok) (cap : Nat) : Option Text :=
  if tk.type ≠ .str ∨ cap = 0 then none
  else strLoop s tk.stop cap (tk.stop - tk.start) tk.start []

/-- `int_text` with its buffer of 40 bytes. -/
def intText (s : Image) (tk : Tok) : Option Text :=
  let b := slice s tk.start (tk.stop - tk.start)
  if tk.type ≠ .num ∧ tk.type ≠ .str then none
  else if tk.stop ≤ tk.start ∨ 40 ≤ b.length then none
  else if tk.type = .num ∧ (cstr b).any (fun c => c = ch '.' || c = ch 'e' || c = ch 'E') then none
  else some b

/-- The base argument of the conversions: a string may be hexadecimal. -/
def intBase (tk : Tok) : Nat := if tk.type = .str then 0 else 10

/-- A string that would be read as octal. -/
def octal (tk : Tok) (b : Text) : Bool :=
  tk.type = .str && b.getD 0 0 == ch '0' && isDigit (b.getD 1 0)

/-- `errno || *e || e == b`. -/
def refused {α : Type} (r : Converted α) : Bool :=
  r.erange || r.rest != [] || r.nothing

/-- `ecm_json_i64`. -/
def ecmJsonI64 (s : Image) (tk : Tok) : Option Int64 :=
  (intText s tk).bind fun b =>
    let r := strtoll (intBase tk) (cstr b)
    if refused r then none
    else if octal tk b then none
    else some r.value

/-- `ecm_json_u64`. -/
def ecmJsonU64 (s : Image) (tk : Tok) : Option UInt64 :=
  (intText s tk).bind fun b =>
    if b.getD 0 0 = ch '-' then none
    else if octal tk b then none
    else
      let r := strtoull (intBase tk) (cstr b)
      if refused r then none else some r.value

end EcMaster.Api
