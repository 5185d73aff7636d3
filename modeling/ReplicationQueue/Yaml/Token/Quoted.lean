import ReplicationQueue.Text.Hex
import ReplicationQueue.Yaml.Token

/-! Scalars between quotes. Between single quotes a doubled quote stands for one; between double
quotes a backslash begins an escape. Lines are folded in both. -/

namespace ReplicationQueue.Yaml

structure QuotedScalar where
  text : List Char
  rest : List Char
  mark : Mark
  deriving Repr

/-- The scalar with `front` before its text. -/
def QuotedScalar.prepend (front : List Char) (scalar : QuotedScalar) : QuotedScalar :=
  { scalar with text := front ++ scalar.text }

def readSingleQuoted : List Char → Mark → Gap → Option QuotedScalar
  | [], _, _ => none
  | '\r' :: '\n' :: rest, mark, gap => readSingleQuoted rest (mark.nextLine 2) (gap.lineEnd '\n')
  | '\'' :: '\'' :: rest, mark, gap =>
    (readSingleQuoted rest (mark.forward 2) .none).map (·.prepend (gap.text ++ ['\'']))
  | c :: rest, mark, gap =>
    if isBreak c then readSingleQuoted rest (mark.nextLine c.utf8Size) (gap.lineEnd (breakText c))
    else if isBlank c then readSingleQuoted rest (mark.past c) (gap.blank c)
    else if mark.column = 0 && isBoundary (c :: rest) then none
    else if c = '\'' then some ⟨gap.text, rest, mark.forward 1⟩
    else (readSingleQuoted rest (mark.past c) .none).map (·.prepend (gap.text ++ [c]))

def escapes : List (Char × Char) :=
  [('0', '\x00'), ('a', '\x07'), ('b', '\x08'), ('t', '\t'), ('\t', '\t'), ('n', '\n'),
    ('v', '\x0b'), ('f', '\x0c'), ('r', '\r'), ('e', '\x1b'), (' ', ' '), ('"', '"'),
    ('/', '/'), ('\\', '\\'), ('N', '\x85'), ('_', '\u00a0'), ('L', '\u2028'), ('P', '\u2029')]

/-- The numbers of digits that escapes of a code point have. -/
def codeWidths : List (Char × Nat) :=
  [('x', 2), ('u', 4), ('U', 8)]

/-- The value of `width` hexadecimal digits, and the rest. -/
def readCode : Nat → Nat → List Char → Option (Nat × List Char)
  | 0, value, rest => some (value, rest)
  | width + 1, value, c :: rest => do
    let digit ← Hex.value? c
    readCode width (value * 16 + digit) rest
  | _ + 1, _, [] => none

theorem length_readCode {width value code : Nat} {s rest : List Char}
    (h : readCode width value s = some (code, rest)) : s.length = rest.length + width := by
  induction width generalizing value s with
  | zero =>
    cases h
    rfl
  | succ width ih =>
    cases s with
    | nil => cases h
    | cons c s =>
      simp only [readCode, Option.bind_eq_bind, Option.bind_eq_some_iff] at h
      obtain ⟨digit, _, h⟩ := h
      have := ih h
      simp only [List.length_cons]
      omega

def charOf? (code : Nat) : Option Char :=
  if code.isValidChar then some (Char.ofNat code) else none

/-- What an escape stands for, the rest, and the number of characters of the escape after its
backslash. -/
def readEscape : List Char → Option (Char × List Char × Nat)
  | [] => none
  | c :: rest =>
    match escapes.lookup c with
    | some d => some (d, rest, 1)
    | none => do
      let width ← codeWidths.lookup c
      let (code, tail) ← readCode width 0 rest
      return (← charOf? code, tail, width + 1)

theorem length_readEscape_lt {s rest : List Char} {c : Char} {n : Nat}
    (h : readEscape s = some (c, rest, n)) : rest.length < s.length := by
  cases s with
  | nil => cases h
  | cons d s =>
    simp only [readEscape] at h
    split at h
    · cases h
      simp
    · simp only [Option.bind_eq_bind, Option.bind_eq_some_iff, Option.pure_def] at h
      obtain ⟨width, _, ⟨code, tail⟩, hc, d, _, h⟩ := h
      cases h
      have := length_readCode hc
      simp only [List.length_cons]
      omega

def readDoubleQuoted (s : List Char) (mark : Mark) (gap : Gap) : Option QuotedScalar :=
  match s with
  | [] => none
  | '\r' :: '\n' :: rest => readDoubleQuoted rest (mark.nextLine 2) (gap.lineEnd '\n')
  | '\\' :: '\r' :: '\n' :: rest =>
    (readDoubleQuoted rest (mark.nextLine 3) (.across none [])).map (·.prepend gap.text)
  | '\\' :: c :: rest =>
    if isBreak c then
      (readDoubleQuoted rest (mark.nextLine (1 + c.utf8Size)) (.across none [])).map
        (·.prepend gap.text)
    else
      match he : readEscape (c :: rest) with
      | none => none
      | some (d, tail, n) =>
        have : tail.length < rest.length + 1 := length_readEscape_lt he
        (readDoubleQuoted tail (mark.forward (n + 1)) .none).map (·.prepend (gap.text ++ [d]))
  | c :: rest =>
    if isBreak c then readDoubleQuoted rest (mark.nextLine c.utf8Size) (gap.lineEnd (breakText c))
    else if isBlank c then readDoubleQuoted rest (mark.past c) (gap.blank c)
    else if mark.column = 0 && isBoundary (c :: rest) then none
    else if c = '"' then some ⟨gap.text, rest, mark.forward 1⟩
    else if c = '\\' then none
    else (readDoubleQuoted rest (mark.past c) .none).map (·.prepend (gap.text ++ [c]))
termination_by s.length

end ReplicationQueue.Yaml
