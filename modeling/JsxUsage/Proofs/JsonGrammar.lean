import JsxUsage.Json.Printer
import Mathlib.Tactic.IntervalCases

/-!
# The grammar of JSON documents

Well-formed documents are given by rules that relate a text to the value it
stands for.  Blanks may stand between any two signs, and a character of a string
has several spellings: itself, a letter behind a backslash, a unit of four
hexadecimal digits, or two such units.  Numbers are natural numbers, as in the
values, so there are no rules for signs, fractions and exponents.  The rules
mention neither the reader nor the printer.

What the printer writes is a well-formed document of the value it was given.
-/

namespace JsxUsage
namespace Json

/-!
# The rules
-/

/-- Only blanks. -/
def Gap (cs : List Char) : Prop :=
  forall c, c ∈ cs -> c = ' ' ∨ c = '\t' ∨ c = '\n' ∨ c = '\r'

/-- The letters that may follow a backslash, with what they stand for. -/
inductive ShortEscape : Char -> Char -> Prop where
  | quote : ShortEscape '"' '"'
  | backslash : ShortEscape '\\' '\\'
  | slash : ShortEscape '/' '/'
  | backspace : ShortEscape 'b' '\x08'
  | tab : ShortEscape 't' '\t'
  | lineFeed : ShortEscape 'n' '\n'
  | formFeed : ShortEscape 'f' '\x0c'
  | carriageReturn : ShortEscape 'r' '\r'

/-- The character is the hexadecimal digit of the number, in either case. -/
def HexDigit (c : Char) (n : Nat) : Prop :=
  "0123456789abcdef".toList[n]? = some c ∨ "0123456789ABCDEF".toList[n]? = some c

/-- The text is a backslash, the letter `u` and the four digits of the number. -/
inductive HexUnit : List Char -> Nat -> Prop where
  | digits {a b c d : Char} {i j k l : Nat}
      (ha : HexDigit a i) (hb : HexDigit b j) (hc : HexDigit c k) (hd : HexDigit d l) :
      HexUnit ['\\', 'u', a, b, c, d] (((i * 16 + j) * 16 + k) * 16 + l)

/-- The spellings of a character inside a string. -/
inductive Spelled : List Char -> Char -> Prop where
  | plain {c : Char} (hquote : c ≠ '"') (hbackslash : c ≠ '\\') (hcontrol : 32 ≤ c.toNat) :
      Spelled [c] c
  | short {e c : Char} (h : ShortEscape e c) : Spelled ['\\', e] c
  | unit {cs : List Char} {c : Char} (h : HexUnit cs c.toNat) : Spelled cs c
  | pair {cs ds : List Char} {c : Char} {upper lower : Nat}
      (hupper : HexUnit cs (0xD800 + upper)) (hlower : HexUnit ds (0xDC00 + lower))
      (hbounded : lower < 0x400) (hc : c.toNat = 0x10000 + upper * 0x400 + lower) :
      Spelled (cs ++ ds) c

/-- The spellings of the characters of a string, one behind the other. -/
inductive Spelling : List Char -> List Char -> Prop where
  | nil : Spelling [] []
  | cons {cs ds s : List Char} {c : Char} (hc : Spelled cs c) (hs : Spelling ds s) :
      Spelling (cs ++ ds) (c :: s)

mutual

/-- The text of a value, without blanks around it. -/
inductive Value : List Char -> Json -> Prop where
  | null : Value "null".toList .null
  | true : Value "true".toList (.bool true)
  | false : Value "false".toList (.bool false)
  | number (n : Nat) : Value (Nat.toDigits 10 n) (.number n)
  | string {cs s : List Char} (h : Spelling cs s) :
      Value ('"' :: (cs ++ ['"'])) (.string (String.ofList s))
  | emptyArray {gap : List Char} (hgap : Gap gap) : Value ('[' :: (gap ++ [']'])) (.array [])
  | array {cs : List Char} {items : List Json} (h : Items cs items) :
      Value ('[' :: (cs ++ [']'])) (.array items)
  | emptyObject {gap : List Char} (hgap : Gap gap) :
      Value ('\x7b' :: (gap ++ ['\x7d'])) (.object [])
  | object {cs : List Char} {members : List (String × Json)} (h : Members cs members) :
      Value ('\x7b' :: (cs ++ ['\x7d'])) (.object members)

/-- The text of one or more values with commas between them. -/
inductive Items : List Char -> List Json -> Prop where
  | last {before cs behind : List Char} {v : Json} (hbefore : Gap before) (hv : Value cs v)
      (hbehind : Gap behind) : Items (before ++ (cs ++ behind)) [v]
  | more {before cs behind ds : List Char} {v : Json} {vs : List Json} (hbefore : Gap before)
      (hv : Value cs v) (hbehind : Gap behind) (hvs : Items ds vs) :
      Items (before ++ (cs ++ (behind ++ ',' :: ds))) (v :: vs)

/-- The text of a name, a colon and a value. -/
inductive Member : List Char -> String × Json -> Prop where
  | pair {ks k before behind cs : List Char} {v : Json} (hk : Spelling ks k)
      (hbefore : Gap before) (hbehind : Gap behind) (hv : Value cs v) :
      Member ('"' :: (ks ++ '"' :: (before ++ ':' :: (behind ++ cs)))) (String.ofList k, v)

/-- The text of one or more members with commas between them. -/
inductive Members : List Char -> List (String × Json) -> Prop where
  | last {before cs behind : List Char} {m : String × Json} (hbefore : Gap before)
      (hm : Member cs m) (hbehind : Gap behind) : Members (before ++ (cs ++ behind)) [m]
  | more {before cs behind ds : List Char} {m : String × Json} {ms : List (String × Json)}
      (hbefore : Gap before) (hm : Member cs m) (hbehind : Gap behind) (hms : Members ds ms) :
      Members (before ++ (cs ++ (behind ++ ',' :: ds))) (m :: ms)

end

/-- The text is one value with blanks around it. -/
inductive Document (text : String) (v : Json) : Prop where
  | value {before cs behind : List Char} (hbefore : Gap before) (hv : Value cs v)
      (hbehind : Gap behind) (htext : text.toList = before ++ (cs ++ behind)) : Document text v

/-!
# What the printer writes

The printer spells a control character with a letter where there is one and with
its unit otherwise, and every other character but quotes and backslashes as
itself.
-/

theorem gap_nil : Gap [] := by
  intro c hc
  cases hc

theorem gap_newLine (level : Nat) : Gap (newLine level) := by
  intro c hc
  rcases List.mem_cons.mp hc with heq | hblank
  · exact .inr (.inr (.inl heq))
  · exact .inl (List.eq_of_mem_replicate hblank)

theorem hexDigit_hexDigit {n : Nat} (hn : n < 16) : HexDigit (hexDigit n) n := by
  left
  interval_cases n <;> rfl

/-- A character below 256 has two zeros in front of the digits of its number. -/
theorem unit_of_lt {n : Nat} (hn : n < 256) :
    HexUnit ['\\', 'u', '0', '0', hexDigit (n / 16), hexDigit (n % 16)] n := by
  have hzero : HexDigit '0' 0 := .inl rfl
  have hhigh := hexDigit_hexDigit (n := n / 16) (by omega)
  have hlow := hexDigit_hexDigit (n := n % 16) (by omega)
  have hunit := HexUnit.digits hzero hzero hhigh hlow
  have hvalue : ((0 * 16 + 0) * 16 + n / 16) * 16 + n % 16 = n := by omega
  rwa [hvalue] at hunit

theorem spelled_escape (c : Char) : Spelled (escape c) c := by
  simp only [escape, beq_iff_eq]
  split_ifs with hquote hbackslash hbackspace htab hline hform hreturn hcontrol
  · subst hquote
    exact .short .quote
  · subst hbackslash
    exact .short .backslash
  · subst hbackspace
    exact .short .backspace
  · subst htab
    exact .short .tab
  · subst hline
    exact .short .lineFeed
  · subst hform
    exact .short .formFeed
  · subst hreturn
    exact .short .carriageReturn
  · exact .unit (unit_of_lt (by omega))
  · exact .plain hquote hbackslash (by omega)

theorem spelling_escape (s : List Char) : Spelling (s.flatMap escape) s := by
  induction s with
  | nil => exact .nil
  | cons c s ih =>
      rw [List.flatMap_cons]
      exact .cons (spelled_escape c) ih

theorem value_quote (s : String) : Value (quote s) (.string s) := by
  have hvalue := Value.string (spelling_escape s.toList)
  rwa [String.ofList_toList] at hvalue

theorem member_write (key : String) {cs : List Char} {v : Json} (hv : Value cs v) :
    Member (quote key ++ (": ".toList ++ cs)) (key, v) := by
  have hblank : Gap [' '] := by
    intro c hc
    exact .inl (List.mem_singleton.mp hc)
  have hmember := Member.pair (spelling_escape key.toList) gap_nil hblank hv
  rw [String.ofList_toList] at hmember
  simpa [quote] using hmember

mutual

theorem value_write (level : Nat) : (v : Json) -> Value (write level v) v
  | .null => by
      rw [write]
      exact .null
  | .bool true => by
      rw [write]
      exact .true
  | .bool false => by
      rw [write]
      exact .false
  | .number n => by
      rw [write, Nat.toString_eq_repr, Nat.toList_repr]
      exact .number n
  | .string s => by
      rw [write]
      exact value_quote s
  | .array [] => by
      rw [write]
      exact .emptyArray gap_nil
  | .array (item :: rest) => by
      have hitems := items_write (level + 1) rest (gap_newLine (level + 1))
        (value_write (level + 1) item) (gap_newLine level)
      simpa [write] using Value.array hitems
  | .object [] => by
      rw [write]
      exact .emptyObject gap_nil
  | .object ((key, value) :: rest) => by
      have hmember := member_write key (value_write (level + 1) value)
      have hmembers := members_write (level + 1) rest (gap_newLine (level + 1)) hmember
        (gap_newLine level)
      simpa [write] using Value.object hmembers

/-- An item whose text is `cs` and the items written behind it. -/
theorem items_write (level : Nat) : (rest : List Json) -> forall {before cs close : List Char}
    {item : Json}, Gap before -> Value cs item -> Gap close ->
      Items (before ++ (cs ++ (writeItems level rest ++ close))) (item :: rest)
  | [], _, _, _, _, hbefore, hitem, hclose => by
      rw [writeItems]
      exact .last hbefore hitem hclose
  | next :: rest, _, _, _, _, hbefore, hitem, hclose => by
      have hrest := items_write level rest (gap_newLine level) (value_write level next) hclose
      simpa [writeItems] using Items.more hbefore hitem gap_nil hrest

/-- A member whose text is `cs` and the members written behind it. -/
theorem members_write (level : Nat) : (rest : List (String × Json)) ->
    forall {before cs close : List Char} {m : String × Json},
      Gap before -> Member cs m -> Gap close ->
      Members (before ++ (cs ++ (writeMembers level rest ++ close))) (m :: rest)
  | [], _, _, _, _, hbefore, hm, hclose => by
      rw [writeMembers]
      exact .last hbefore hm hclose
  | (key, value) :: rest, _, _, _, _, hbefore, hm, hclose => by
      have hnext := member_write key (value_write level value)
      have hrest := members_write level rest (gap_newLine level) hnext hclose
      simpa [writeMembers] using Members.more hbefore hm gap_nil hrest

end

theorem document_pretty (v : Json) : Document v.pretty v := by
  refine .value gap_nil (value_write 0 v) gap_nil ?_
  simp [pretty]

end Json
end JsxUsage
