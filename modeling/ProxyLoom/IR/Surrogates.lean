import ProxyLoom.Lib.JsonText

/-!
# The surrogate checks

Three packages check the `\u` escapes of a document before it is decoded. Their scanners have one
text, up to the way in which one of them groups a condition.
-/

namespace ProxyLoom.Surrogates

open JsonText Frame List

/-- `strconv.ParseUint` to the base 16 with 16 bits: the value, and whether there was an error. -/
def parseUint (s : Bytes) : ℕ × Bool :=
  if s = [] then (0, true)
  else
    match s.foldlM (fun n b => (hexDigit? b).map (n * 16 + ·)) 0 with
    | none => (0, true)
    | some n => if n < 2 ^ 16 then (n, false) else (2 ^ 16 - 1, true)

/-- The loop at the remaining bytes. The packages differ in how they write what they refuse of a
first unit. -/
def scan (refused : ℕ → Bool → Bool) (inString : Bool) (data : Bytes) : Bool :=
  match data with
  | [] => true
  | b :: rest =>
    if b = quote then scan refused (!inString) rest
    else if !inString || b != backslash || rest.isEmpty then scan refused inString rest
    else if rest.head? != some letterU then scan refused inString (rest.drop 1)
    else if (b :: rest).length < 6 then false
    else
      let n := parseUint (((b :: rest).drop 2).take 4)
      if refused n.1 n.2 then false
      else if 0xD800 ≤ n.1 && n.1 ≤ 0xDBFF then
        if (b :: rest).length < 12 || (b :: rest)[6]? != some backslash ||
            (b :: rest)[7]? != some letterU then false
        else
          let low := parseUint (((b :: rest).drop 8).take 4)
          if low.2 || low.1 < 0xDC00 || 0xDFFF < low.1 then false
          else scan refused inString ((b :: rest).drop 12)
      else scan refused inString ((b :: rest).drop 6)
termination_by data.length
decreasing_by all_goals simp only [length_cons, length_drop]; omega

namespace IR

def validSurrogates (data : Bytes) : Bool :=
  scan (fun n err => if err then true else if n ≥ 0xDC00 && n ≤ 0xDFFF then true else false)
    false data

end IR

namespace APIContract

def validSurrogates (data : Bytes) : Bool :=
  scan (fun n err => err || (n ≥ 0xDC00 && n ≤ 0xDFFF)) false data

end APIContract

namespace ImportParse

def validSurrogates (data : Bytes) : Bool :=
  scan (fun n err => err || n ≥ 0xDC00 && n ≤ 0xDFFF) false data

end ImportParse

/-! ## One lexeme -/

/-- What all three refuse of a first unit. -/
def refused (n : ℕ) (err : Bool) : Bool := err || isLow n

theorem validSurrogates_ir (data : Bytes) : IR.validSurrogates data = scan refused false data := by
  unfold IR.validSurrogates
  congr 1
  funext n err
  cases err with
  | true => rfl
  | false =>
    show (if isLow n = true then true else false) = (false || isLow n)
    cases isLow n <;> rfl

theorem parseUint_digits (a b c d : HexDigit) :
    parseUint [a.byte, b.byte, c.byte, d.byte] = (unitOf a b c d, false) := by
  have hfold : [a.byte, b.byte, c.byte, d.byte].foldlM
      (fun n b => (hexDigit? b).map (n * 16 + ·)) 0 = some (unitOf a b c d) := by
    simp [List.foldlM, a.hexDigit, b.hexDigit, c.hexDigit, d.hexDigit, unitOf]
  rw [parseUint, if_neg (cons_ne_nil _ _), hfold]
  exact if_pos (unitOf_lt a b c d)

variable (r : ℕ → Bool → Bool) {b : UInt8}

theorem scan_quote (inString : Bool) (rest : Bytes) :
    scan r inString (quote :: rest) = scan r (!inString) rest := by
  rw [scan, if_pos rfl]

theorem scan_outside (hquote : b ≠ quote) (rest : Bytes) :
    scan r false (b :: rest) = scan r false rest := by
  rw [scan, if_neg hquote]
  rfl

theorem scan_plain (hquote : b ≠ quote) (hbackslash : b ≠ backslash) (rest : Bytes) :
    scan r true (b :: rest) = scan r true rest := by
  rw [scan, if_neg hquote, if_pos]
  rw [bne_iff_ne.mpr hbackslash]
  rfl

theorem scan_short (hb : b ∈ shortEscapes) (rest : Bytes) :
    scan r true (backslash :: b :: rest) = scan r true rest := by
  have hu : b ≠ letterU := by
    rintro rfl
    exact absurd hb (by decide)
  rw [scan, if_neg (by decide), if_neg (by simp), if_pos]
  · rfl
  · simpa using hu

def scanLow (rest : Bytes) : Bool :=
  if rest.length < 6 || rest[0]? != some backslash || rest[1]? != some letterU then false
  else
    let low := parseUint ((rest.drop 2).take 4)
    if low.2 || low.1 < 0xDC00 || 0xDFFF < low.1 then false
    else scan refused true (rest.drop 6)

theorem scan_unit (a b c d : HexDigit) (rest : Bytes) :
    scan refused true ((Item.unit a b c d).bytes ++ rest) =
      if isLow (unitOf a b c d) then false
      else if isHigh (unitOf a b c d) then scanLow rest
      else scan refused true rest := by
  have hlength : ∀ n, decide ((backslash :: letterU :: a.byte :: b.byte :: c.byte :: d.byte ::
      rest).length < n + 6) = decide (rest.length < n) := by
    intro n
    simp only [length_cons, decide_eq_decide]
    omega
  show scan refused true (backslash :: letterU :: a.byte :: b.byte :: c.byte :: d.byte :: rest) = _
  rw [scan, if_neg (by decide), if_neg (by simp), if_neg (by simp)]
  rw [if_neg (of_decide_eq_false (hlength 0))]
  simp only [drop_succ_cons, drop_zero, take_succ_cons, take_zero,
    parseUint_digits]
  rw [hlength 6]
  rfl

theorem scanLow_item (x : Item) (rest : Bytes) :
    scanLow (x.bytes ++ rest) = (x.low && scan refused true rest) := by
  cases x with
  | plain b hquote hbackslash hcontrol =>
    refine if_pos ?_
    simp [Item.bytes, hbackslash]
  | short b hb =>
    have hu : b ≠ letterU := by
      rintro rfl
      exact absurd hb (by decide)
    refine if_pos ?_
    simp [Item.bytes, hu]
  | unit a b c d =>
    have hlow : (Item.unit a b c d).low = isLow (unitOf a b c d) := rfl
    have hlength : ¬ ((Item.unit a b c d).bytes ++ rest).length < 6 := by
      rw [length_append]
      exact Nat.not_lt.mpr (Nat.le_add_right 6 _)
    rw [scanLow, decide_eq_false hlength, if_neg (by simp [Item.bytes]), hlow]
    show (let low := parseUint [a.byte, b.byte, c.byte, d.byte]
      if low.2 || low.1 < 0xDC00 || 0xDFFF < low.1 then false else scan refused true rest) = _
    rw [parseUint_digits]
    cases h : isLow (unitOf a b c d) with
    | true =>
      obtain ⟨hge, hle⟩ := Bool.and_eq_true_iff.mp h
      have hge := of_decide_eq_true hge
      have hle := of_decide_eq_true hle
      refine if_neg ?_
      simp only [Bool.false_or, Bool.or_eq_true, decide_eq_true_eq]
      omega
    | false =>
      refine if_pos ?_
      have h := Bool.and_eq_false_iff.mp h
      simp only [decide_eq_false_iff_not] at h
      simp only [Bool.false_or, Bool.or_eq_true, decide_eq_true_eq]
      omega

theorem scanLow_quote (rest : Bytes) : scanLow (quote :: rest) = false := by
  refine if_pos ?_
  simp [quote, backslash]

/-! ## Whole texts -/

theorem scan_item (x : Item) (rest : Bytes) :
    scan refused true (x.bytes ++ rest) =
      if x.low then false else if x.high then scanLow rest else scan refused true rest := by
  cases x with
  | plain b hquote hbackslash hcontrol => exact scan_plain refused hquote hbackslash rest
  | short b hb => exact scan_short refused hb rest
  | unit a b c d => exact scan_unit a b c d rest

theorem itemBytes_cons (x : Item) (items : List Item) (rest : Bytes) :
    itemBytes (x :: items) ++ rest = x.bytes ++ (itemBytes items ++ rest) := by
  rw [itemBytes, flatMap_cons, append_assoc]
  rfl

theorem scan_items (items : List Item) (rest : Bytes) :
    scan refused true (itemBytes items ++ quote :: rest) =
      (paired items && scan refused false rest) := by
  induction items using paired.induct with
  | case1 => exact scan_quote refused true rest
  | case2 x =>
    have hquote := scan_quote refused true rest
    rw [itemBytes_cons, scan_item, paired]
    show (if x.low then false else if x.high then scanLow (quote :: rest)
      else scan refused true (quote :: rest)) = _
    rw [scanLow_quote, hquote]
    cases x.low <;> cases x.high <;> rfl
  | case3 x y items hlow =>
    rw [itemBytes_cons, scan_item, paired, if_pos hlow, if_pos hlow]
    rfl
  | case4 x y items hlow hhigh ih =>
    rw [itemBytes_cons, scan_item, paired, if_neg hlow, if_neg hlow, if_pos hhigh, if_pos hhigh,
      itemBytes_cons, scanLow_item, ih, Bool.and_assoc]
  | case5 x y items hlow hhigh ih =>
    rw [itemBytes_cons, scan_item, paired, if_neg hlow, if_neg hlow, if_neg hhigh, if_neg hhigh, ih]

/-- On a text of lexemes the scanner finds out whether the escapes of every literal pair up. -/
theorem scan_text (text : List Lexeme) :
    scan refused false (textBytes text) = true ↔
      ∀ items, Lexeme.literal items ∈ text → WellPaired items := by
  induction text with
  | nil => exact iff_of_true (by rw [textBytes, flatMap_nil, scan]) (by simp)
  | cons x text ih =>
    have hbytes : textBytes (x :: text) = x.bytes ++ textBytes text := flatMap_cons
    rw [hbytes]
    cases x with
    | outside b hquote =>
      show scan refused false (b :: textBytes text) = true ↔ _
      rw [scan_outside refused hquote, ih]
      simp
    | literal items =>
      have hliteral : (Lexeme.literal items).bytes ++ textBytes text =
          quote :: (itemBytes items ++ quote :: textBytes text) := by
        simp [Lexeme.bytes]
      rw [hliteral, scan_quote]
      show scan refused true _ = true ↔ _
      rw [scan_items, Bool.and_eq_true, paired_iff, ih]
      simp [forall_eq_or_imp]

/-- **The surrogate checks.** On every text whose string literals are lexically those of JSON the
three checks give one result, and it is whether in every literal each escape of a high surrogate is
immediately followed by that of a low one, and each of a low one immediately follows a high one. -/
theorem validSurrogates_exact (text : List Lexeme) :
    IR.validSurrogates (textBytes text) = APIContract.validSurrogates (textBytes text) ∧
      APIContract.validSurrogates (textBytes text) = ImportParse.validSurrogates (textBytes text) ∧
      (IR.validSurrogates (textBytes text) = true ↔
        ∀ items, Lexeme.literal items ∈ text → WellPaired items) := by
  rw [validSurrogates_ir]
  exact ⟨rfl, rfl, scan_text text⟩

end ProxyLoom.Surrogates
