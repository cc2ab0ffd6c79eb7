import SqlSelect.Config.QuotedText
import SqlSelect.Proofs.Glyphs
import SqlSelect.Proofs.Quoting

/-!
# Reading Literals Back

A quoted value is a literal that can be read back: a reader that knows where literals of each kind
end stops right behind it and finds what the value was.  Values that read as the same datum are
written alike, such as one number in several widths, or a NaN and the text of its name, and no others
are.  The numbers with a fraction are left out, since the reader knows whole numbers only.

## Main definitions

- `Datum` — what a literal stands for
- `readDatum?` — read one literal at the front of the input
- `Value.datum?` — what a value stands for, unless it is a number with a fraction

## Main statements

- `readDatum?_literal` — the literal of a datum is read back, whatever follows but part of a literal
- `Value.quoted_decodes` — quoted values and quoted identifiers are read back
-/

namespace SqlSelect

/-! ## §1 Data and their literals -/

/-- What a literal stands for. -/
inductive Datum where
  | null
  | boolean (b : Bool)
  | integer (n : Int)
  | text (s : String)
  | bytes (bs : List UInt8)
  deriving DecidableEq

/-- The literal of a datum. -/
def Datum.literal : Datum → String
  | null => "NULL"
  | boolean b => if b then "TRUE" else "FALSE"
  | integer n => toString n
  | text s => quoteString s
  | bytes bs => String.ofList ('X' :: Quoted.enclose Quoted.stringMark (bs.flatMap hexDigits))

namespace Value

/-- Whether a value is a floating-point number, rather than an infinity, a NaN or of another kind. -/
def isFiniteFloat : Value → Bool
  | real x => x.isFinite
  | double x => x.isFinite
  | _ => false

/-- What a value stands for: one of the widths of whole numbers says no more than the number, and a
value that is no number says its name. -/
def datum? : Value → Option Datum
  | null => some .null
  | boolean b => some (.boolean b)
  | smallint n => some (.integer n.toInt)
  | integer n => some (.integer n.toInt)
  | bigint n => some (.integer n.toInt)
  | real x => x.word?.map .text
  | double x => x.word?.map .text
  | text s => some (.text s)
  | bytes bs => some (.bytes bs)

end Value

/-- What is no number is written as its name between marks. -/
theorem Binary.text_of_word {f : BinaryFormat} {x : Binary f} {s : String}
    (h : x.word? = some s) : x.text literalNumber = quoteString s := by
  unfold word? at h
  rw [Binary.text]
  -- A number that is not finite is written as a word in quotes, with its sign if it has one.
  split at h
  · cases h
  · next hfinite =>
    rw [if_neg hfinite]
    split at h
    · next hnan =>
      cases h
      rw [if_pos hnan]
      rfl
    · next hnan =>
      rw [if_neg hnan]
      split at h <;> next hsign => cases h; simp [hsign, literalNumber]

/-- A number that is not finite has a name. -/
theorem Binary.exists_word {f : BinaryFormat} {x : Binary f} (h : x.isFinite = false) :
    ∃ s, x.word? = some s := by
  unfold word?
  rw [h]
  split
  · contradiction
  · split
    · exact ⟨_, rfl⟩
    · split <;> exact ⟨_, rfl⟩

/-- Every value but a number with a fraction stands for a datum. -/
theorem Value.exists_datum {v : Value} (h : v.isFiniteFloat = false) :
    ∃ d, v.datum? = some d := by
  cases v with
  | real x =>
    obtain ⟨s, hs⟩ := Binary.exists_word h
    exact ⟨.text s, by rw [datum?, hs]; rfl⟩
  | double x =>
    obtain ⟨s, hs⟩ := Binary.exists_word h
    exact ⟨.text s, by rw [datum?, hs]; rfl⟩
  | _ => exact ⟨_, rfl⟩

/-- A quoted value is the literal of what it stands for. -/
theorem Value.quoted_eq_literal {v : Value} {d : Datum} (h : v.datum? = some d) :
    v.quoted = d.literal := by
  cases v with
  | real x =>
    obtain ⟨s, hs, rfl⟩ := Option.map_eq_some_iff.mp h
    exact Binary.text_of_word hs
  | double x =>
    obtain ⟨s, hs, rfl⟩ := Option.map_eq_some_iff.mp h
    exact Binary.text_of_word hs
  -- Apart from the names of numbers, both sides write the same.
  | _ => cases h; rfl

/-! ## §2 Reading -/

/-- The number that digits write. -/
def natural? (cs : List Char) : Option Nat :=
  if cs ≠ [] ∧ cs.all Char.isDigit then some (Nat.ofDigitChars 10 cs 0) else none

/-- The bytes that hexadecimal digits write, two digits each. -/
def bytes? : List Char → Option (List UInt8)
  | [] => some []
  | [_] => none
  | c :: d :: cs => do
    let high ← hexDigit? c
    let low ← hexDigit? d
    return UInt8.ofNat (16 * high + low) :: (← bytes? cs)

/-- What a word without marks stands for. -/
def Datum.ofWord? (cs : List Char) : Option Datum :=
  if cs = "NULL".toList then some .null
  else if cs = "TRUE".toList then some (.boolean true)
  else if cs = "FALSE".toList then some (.boolean false)
  else (natural? cs).map fun n => .integer n

/-- Read a text between marks at the front of the input. -/
def readText? (cs : List Char) : Option (Datum × List Char) :=
  (Quoted.read? Quoted.stringMark cs).map fun r => (.text (String.ofList r.1), r.2)

/-- Read bytes between marks at the front of the input. -/
def readBytes? (cs : List Char) : Option (Datum × List Char) := do
  let (digits, rest) ← Quoted.read? Quoted.stringMark cs
  return (.bytes (← bytes? digits), rest)

/-- Read a word at the front of the input: letters, digits and underscores, as many as there are. -/
def readWord? (meaning? : List Char → Option Datum) (cs : List Char) : Option (Datum × List Char) :=
  (meaning? (cs.takeWhile isNameChar)).map fun d => (d, cs.dropWhile isNameChar)

/-- Read one literal at the front of the input, and return what it stands for with the rest: a text
between marks, bytes between marks behind an `X`, digits with or without a minus sign, or one of
three words. -/
def readDatum? : List Char → Option (Datum × List Char)
  | [] => none
  | c :: cs =>
    if c = Quoted.stringMark then readText? (c :: cs)
    else if c = 'X' ∧ cs.head? = some Quoted.stringMark then readBytes? cs
    else if c = '-' then readWord? (fun ds => (natural? ds).map fun n => .integer (-n)) cs
    else readWord? Datum.ofWord? (c :: cs)

/-- What may stand behind a literal: nothing, or a character that no literal goes on with. -/
def EndsLiteral (rest : List Char) : Prop :=
  ∀ c, rest.head? = some c → isNameChar c = false ∧ c ≠ Quoted.stringMark

instance (rest : List Char) : Decidable (EndsLiteral rest) :=
  match rest with
  | [] => isTrue nofun
  | c :: _ =>
    decidable_of_iff (isNameChar c = false ∧ c ≠ Quoted.stringMark)
      ⟨fun h _ hd => Option.some.inj hd ▸ h, fun h => h c rfl⟩

/-- A literal may end the input. -/
theorem endsLiteral_nil : EndsLiteral [] := nofun

/-- Behind a literal no mark stands. -/
theorem EndsLiteral.head?_ne {rest : List Char} (h : EndsLiteral rest) :
    rest.head? ≠ some Quoted.stringMark := fun hrest => (h _ hrest).2 rfl

/-! ## §3 Each kind of literal is read back -/

/-- A word is read up to where it ends. -/
theorem readWord?_append (meaning? : List Char → Option Datum) {cs rest : List Char}
    (hcs : ∀ c ∈ cs, isNameChar c = true) (hrest : EndsLiteral rest) :
    readWord? meaning? (cs ++ rest) = (meaning? cs).map fun d => (d, rest) := by
  -- What follows begins with no character of words, so the word takes nothing of it.
  have htake : rest.takeWhile isNameChar = [] ∧ rest.dropWhile isNameChar = rest := by
    cases rest with
    | nil => exact ⟨rfl, rfl⟩
    | cons c rest => simp [(hrest c rfl).1]
  rw [readWord?, List.takeWhile_append_of_pos hcs, List.dropWhile_append_of_pos hcs, htake.1,
    htake.2, List.append_nil]

/-- A word is read as a word, whatever letter it starts with. -/
theorem readDatum?_word {cs rest : List Char} (hne : cs ≠ [])
    (hcs : ∀ c ∈ cs, isNameChar c = true) (hrest : EndsLiteral rest) :
    readDatum? (cs ++ rest) = (Datum.ofWord? cs).map fun d => (d, rest) := by
  have hword := readWord?_append Datum.ofWord? hcs hrest
  cases cs with
  | nil => exact absurd rfl hne
  | cons c cs =>
    have hc : isNameChar c = true := hcs c (List.mem_cons_self ..)
    have hmark : c ≠ Quoted.stringMark := by rintro rfl; exact absurd hc (by decide)
    have hminus : c ≠ '-' := by rintro rfl; exact absurd hc (by decide)
    -- Behind its first letter a word goes on or ends, and no mark follows either way.
    have hnext : (cs ++ rest).head? ≠ some Quoted.stringMark := by
      cases cs with
      | nil => exact hrest.head?_ne
      | cons d cs =>
        have hd : isNameChar d = true := hcs d (by simp)
        rintro hmark
        cases hmark
        exact absurd hd (by decide)
    rw [List.cons_append, readDatum?, if_neg hmark, if_neg fun h => hnext h.2, if_neg hminus]
    exact hword

theorem natural?_toDigits (n : Nat) : natural? (Nat.toDigits 10 n) = some n := by
  have hdigits : (Nat.toDigits 10 n).all Char.isDigit = true :=
    List.all_eq_true.mpr fun _ hc => Nat.isDigit_of_mem_toDigits (by decide) (by decide) hc
  rw [natural?, if_pos ⟨Nat.toDigits_ne_nil, hdigits⟩, Nat.ofDigitChars_ten_toDigits]

theorem isNameChar_of_mem_toDigits {n : Nat} {c : Char} (hc : c ∈ Nat.toDigits 10 n) :
    isNameChar c = true := by
  have hdigit : c.isDigit = true := Nat.isDigit_of_mem_toDigits (by decide) (by decide) hc
  simp [isNameChar, Char.isAlphanum, hdigit]

/-- Digits are no word of the language. -/
theorem Datum.ofWord?_toDigits (n : Nat) :
    Datum.ofWord? (Nat.toDigits 10 n) = some (.integer n) := by
  have hdigits : (Nat.toDigits 10 n).all Char.isDigit = true := List.all_eq_true.mpr fun _ hc =>
    Nat.isDigit_of_mem_toDigits (by decide) (by decide) hc
  -- The words that stand for something else all have a letter in them.
  have hword : ∀ w : List Char, w.all Char.isDigit = false → Nat.toDigits 10 n ≠ w := by
    rintro w hw rfl
    rw [hdigits] at hw
    cases hw
  rw [ofWord?, if_neg (hword _ rfl), if_neg (hword _ rfl), if_neg (hword _ rfl), natural?_toDigits]
  rfl

/-- An integer is read back, with its sign. -/
theorem readDatum?_integer (n : Int) {rest : List Char} (hrest : EndsLiteral rest) :
    readDatum? ((toString n).toList ++ rest) = some (.integer n, rest) := by
  cases n with
  | ofNat n =>
    show readDatum? ((toString n).toList ++ rest) = _
    rw [Nat.toString_eq_repr, Nat.toList_repr, readDatum?_word Nat.toDigits_ne_nil
      (fun _ => isNameChar_of_mem_toDigits) hrest, Datum.ofWord?_toDigits]
    rfl
  | negSucc n =>
    -- Behind the minus sign the digits are read as a word of their own.
    have hsign : ('-' : Char) ≠ Quoted.stringMark ∧ ¬ ('-' : Char) = 'X' := by decide
    show readDatum? (("-" ++ toString (n + 1)).toList ++ rest) = _
    rw [String.toList_append, Nat.toString_eq_repr, Nat.toList_repr]
    show readDatum? ('-' :: (Nat.toDigits 10 (n + 1) ++ rest)) = _
    rw [readDatum?, if_neg hsign.1, if_neg fun h => hsign.2 h.1, if_pos rfl,
      readWord?_append _ (fun _ => isNameChar_of_mem_toDigits) hrest, natural?_toDigits]
    rfl

/-- A hexadecimal digit is read as what it counts. -/
theorem hexDigit?_digitChar : ∀ d < 16, hexDigit? (Nat.digitChar d) = some d := by decide

/-- Bytes are read back from two digits each. -/
theorem bytes?_hexDigits (bs : List UInt8) : bytes? (bs.flatMap hexDigits) = some bs := by
  induction bs with
  | nil => rfl
  | cons b bs ih =>
    have hb : b.toNat < 256 := b.toNat_lt
    -- A byte is put together again from its two halves.
    have hbyte : UInt8.ofNat (16 * (b.toNat / 16) + b.toNat % 16) = b := by
      rw [Nat.div_add_mod]
      exact UInt8.ofNat_toNat
    have hhigh := hexDigit?_digitChar (b.toNat / 16) (by omega)
    have hlow := hexDigit?_digitChar (b.toNat % 16) (by omega)
    rw [List.flatMap_cons, hexDigits]
    show bytes? (_ :: _ :: bs.flatMap hexDigits) = _
    rw [bytes?, hhigh, hlow, ih]
    exact congrArg (fun c => some (c :: bs)) hbyte

/-- The literal of a datum is read back, and the reader stops behind it. -/
theorem readDatum?_literal (d : Datum) {rest : List Char} (hrest : EndsLiteral rest) :
    readDatum? (d.literal.toList ++ rest) = some (d, rest) := by
  cases d with
  | null => exact readDatum?_word (by decide) (List.all_eq_true.mp rfl) hrest
  | boolean b =>
    cases b <;> exact readDatum?_word (by decide) (List.all_eq_true.mp rfl) hrest
  | integer n => exact readDatum?_integer n hrest
  | text s =>
    have hread := Quoted.read?_enclose Quoted.stringMark s.toList rest hrest.head?_ne
    rw [Datum.literal, quoteString, String.toList_ofList]
    show readDatum? (Quoted.stringMark :: _) = _
    rw [readDatum?, if_pos rfl]
    show readText? (Quoted.enclose Quoted.stringMark s.toList ++ rest) = _
    rw [readText?, hread, Option.map_some, String.ofList_toList]
  | bytes bs =>
    have hread := Quoted.read?_enclose Quoted.stringMark (bs.flatMap hexDigits) rest hrest.head?_ne
    -- The letter in front is no mark, and it is not read as a word since a mark follows.
    have hletter : ('X' : Char) ≠ Quoted.stringMark := by decide
    rw [Datum.literal, String.toList_ofList, List.cons_append, readDatum?, if_neg hletter,
      if_pos ⟨rfl, rfl⟩, readBytes?, hread]
    simp [bytes?_hexDigits]

/-- Different data have different literals. -/
theorem Datum.literal_inj {d e : Datum} (h : d.literal = e.literal) : d = e := by
  have hd := readDatum?_literal d endsLiteral_nil
  have he := readDatum?_literal e endsLiteral_nil
  rw [h] at hd
  exact (Prod.mk.inj (Option.some.inj (hd.symm.trans he))).1

/-! ## §4 Quoted values and identifiers -/

/-- Quoted values and identifiers are read back.  In front of anything but a letter, a digit, an
underscore or a mark, the reader takes just the literal of a value and finds what the value stands
for.  Hence two values are quoted alike just if they stand for the same.  A reader of identifiers takes
just the quoted name, unless a further mark follows. -/
theorem Value.quoted_decodes :
    (∀ v : Value, v.isFiniteFloat = false → ∃ d, v.datum? = some d ∧
        ∀ rest, EndsLiteral rest → readDatum? (v.quoted.toList ++ rest) = some (d, rest)) ∧
      (∀ v w : Value, v.isFiniteFloat = false → w.isFiniteFloat = false →
        (v.quoted = w.quoted ↔ v.datum? = w.datum?)) ∧
      ∀ (s : String) (rest : List Char), rest.head? ≠ some Quoted.identifierMark →
        Quoted.read? Quoted.identifierMark ((quoteIdentifier s).toList ++ rest) =
          some (s.toList, rest) := by
  refine ⟨fun v hv => ?_, fun v w hv hw => ?_, fun s rest hrest => ?_⟩
  · obtain ⟨d, hd⟩ := Value.exists_datum hv
    refine ⟨d, hd, fun rest hrest => ?_⟩
    rw [Value.quoted_eq_literal hd]
    exact readDatum?_literal d hrest
  · obtain ⟨d, hd⟩ := Value.exists_datum hv
    obtain ⟨e, he⟩ := Value.exists_datum hw
    -- Quoted alike means that the data have one literal, which is read as one datum.
    rw [Value.quoted_eq_literal hd, Value.quoted_eq_literal he, hd, he]
    exact ⟨fun h => congrArg some (Datum.literal_inj h),
      fun h => congrArg Datum.literal (Option.some.inj h)⟩
  · rw [quoteIdentifier, String.toList_ofList]
    exact Quoted.read?_enclose Quoted.identifierMark s.toList rest hrest

/-- A text that ends in a mark and looks like bytes, the least of all numbers, bytes, a NaN, and a
name with a mark are found where they stand. -/
theorem readDatum?_of_quoted :
    readDatum? ((Value.text "X'0a' '").quoted.toList ++ ", 'x'".toList) =
        some (.text "X'0a' '", ", 'x'".toList) ∧
      readDatum? ((Value.bigint Int64.minValue).quoted.toList ++ ")".toList) =
        some (.integer (-9223372036854775808), ")".toList) ∧
      readDatum? ((Value.bytes [0x0a, 0xff]).quoted.toList ++ []) = some (.bytes [10, 255], []) ∧
      (Value.real ⟨BitVec.ofNat _ 0x7fc00000⟩).quoted = (Value.text "NaN").quoted ∧
      (Value.smallint 7).quoted = (Value.bigint 7).quoted ∧
      (Value.text "7").quoted ≠ (Value.integer 7).quoted ∧
      Quoted.read? Quoted.identifierMark ((quoteIdentifier "a\x22").toList ++ ".b".toList) =
        some ("a\x22".toList, ".b".toList) := by
  obtain ⟨hread, halike, hname⟩ := Value.quoted_decodes
  have hdatum : ∀ {v : Value} {d : Datum} {rest : List Char}, v.isFiniteFloat = false →
      v.datum? = some d → EndsLiteral rest →
        readDatum? (v.quoted.toList ++ rest) = some (d, rest) := by
    intro v d rest hv hd hrest
    obtain ⟨e, he, hall⟩ := hread v hv
    obtain rfl := Option.some.inj (hd.symm.trans he)
    exact hall rest hrest
  refine ⟨hdatum rfl rfl (by decide), hdatum rfl (by decide) (by decide),
    hdatum rfl rfl (by decide), ?_, ?_, ?_, hname _ _ (by decide)⟩
  · exact (halike _ _ (by decide) rfl).mpr (by decide)
  · exact (halike _ _ rfl rfl).mpr (by decide)
  · exact fun h => absurd ((halike _ _ rfl rfl).mp h) (by decide)

end SqlSelect
