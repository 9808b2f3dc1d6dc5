import Storefront.Json.Document

/-!
# JSON literals

Numbers and texts as a JSON document spells them. Each reader takes a lead of
the characters it is given and returns the rest, with a lemma that the rest is
shorter, on which the recursion over whole documents rests.

A number that is not a whole number of 64 bits is read in two roundings: its
leading digits, as many as an unsigned 64-bit number holds, become a double,
which is then scaled by one power of ten. The result may differ in the last place
from the double nearest to the decimal.
-/

namespace Storefront.Json

/-! ## Numbers -/

/-- **A number literal**: sign, whole digits, digits after the point, power of ten. -/
structure NumberLiteral where
  /-- Whether a minus sign stands in front. -/
  negative : Bool
  /-- The digits before the point. -/
  whole : List Char
  /-- The digits after the point, if there is one. -/
  fraction : Option (List Char)
  /-- The power of ten, if there is one. -/
  exponent : Option Int

/-- The largest unsigned 64-bit number. -/
def maxUInt64 : Nat := UInt64.size - 1

/-- `significand` extended by leading digits as long as it stays within 64 bits, and how many
digits are left over from the first that does not fit. -/
def absorb (significand : Nat) : List Char → Nat × Nat
  | [] => (significand, 0)
  | d :: ds =>
    let next := significand * 10 + (d.toNat - 48)
    if next ≤ maxUInt64 then absorb next ds else (significand, ds.length + 1)

/-- The double nearest to `10 ^ k`. -/
def powerOfTen (k : Nat) : Double := (Decimal.mk 1 k).toDouble false

/-- `x` divided by `10 ^ k`, at most `10 ^ 308` at a time. -/
def scaleDown (x : Double) (k : Nat) : Double :=
  if k ≤ 308 then x.div (powerOfTen k)
  else if x.isZero then x
  else scaleDown (x.div (powerOfTen 308)) (k - 308)
termination_by k

/-- `significand * 10 ^ exponent` as a double, `none` when it is beyond every double. -/
def scaled? (significand : Nat) (exponent : Int) : Option Double :=
  let x := Double.ofNat significand
  if exponent < 0 then some (scaleDown x (-exponent).toNat)
  else if exponent ≤ 308 then some (x.mul (powerOfTen exponent.toNat)) |>.filter (·.isFinite)
  else if x.isZero then some x
  else none

namespace NumberLiteral

/-- The literal read as a double. -/
def double? (l : NumberLiteral) : Option Double :=
  let (whole, dropped) := absorb 0 l.whole
  let fraction := l.fraction.getD []
  let (significand, unread) := absorb whole fraction
  let places := (dropped : Int) - (fraction.length - unread : Nat)
  (scaled? significand (places + l.exponent.getD 0)).map fun x => if l.negative then x.neg else x

/-- **The number of a literal**: exact for whole numbers of 64 bits other than `-0`, a double
otherwise; `none` when it is beyond every double. -/
def number? (l : NumberLiteral) : Option Number :=
  let n := digitsValue l.whole
  if l.fraction.isNone && l.exponent.isNone then
    if !l.negative && n ≤ maxUInt64 then some (.int n)
    else if l.negative && 0 < n && n ≤ UInt64.size / 2 then some (.int (-n))
    else l.double?.map .float
  else l.double?.map .float

end NumberLiteral

/-- The digits in front, at least one. -/
def readDigits? (cs : List Char) : Option (List Char × List Char) :=
  match cs.takeWhile Char.isDigit with
  | [] => none
  | ds => some (ds, cs.dropWhile Char.isDigit)

/-- The power of ten that may follow the digits. -/
def readPower? : List Char → Option (Option Int × List Char)
  | c :: cs =>
    if c = 'e' || c = 'E' then
      let (negative, ds) :=
        match cs with
        | '+' :: ds => (false, ds)
        | '-' :: ds => (true, ds)
        | ds => (false, ds)
      (readDigits? ds).map fun (digits, rest) =>
        (some (if negative then -(digitsValue digits : Int) else digitsValue digits), rest)
    else some (none, c :: cs)
  | [] => some (none, [])

/-- The point and digits that may follow the whole digits. -/
def readFraction? : List Char → Option (Option (List Char) × List Char)
  | '.' :: cs => (readDigits? cs).map fun (digits, rest) => (some digits, rest)
  | cs => some (none, cs)

/-- **A number literal in front.** A zero may not be followed by further whole digits. -/
def readNumber? (cs : List Char) : Option (NumberLiteral × List Char) :=
  let (negative, cs) :=
    match cs with
    | '-' :: cs => (true, cs)
    | cs => (false, cs)
  match readDigits? cs with
  | none => none
  | some (whole, rest) =>
    if whole.head? = some '0' && whole.length ≠ 1 then none
    else
      match readFraction? rest with
      | none => none
      | some (fraction, rest) =>
        (readPower? rest).map fun (exponent, rest) => (⟨negative, whole, fraction, exponent⟩, rest)

theorem length_of_readDigits? {cs ds rest : List Char} (h : readDigits? cs = some (ds, rest)) :
    rest.length < cs.length := by
  unfold readDigits? at h
  split at h
  · simp at h
  · rename_i hne
    simp only [Option.some.injEq, Prod.mk.injEq] at h
    have hsum := congrArg List.length (List.takeWhile_append_dropWhile (p := Char.isDigit) (l := cs))
    rw [List.length_append] at hsum
    have : 0 < (cs.takeWhile Char.isDigit).length := List.length_pos_iff.2 hne
    rw [← h.2]
    omega

theorem length_of_readFraction? {cs rest : List Char} {f : Option (List Char)}
    (h : readFraction? cs = some (f, rest)) : rest.length ≤ cs.length := by
  unfold readFraction? at h
  split at h
  · simp only [Option.map_eq_some_iff] at h
    obtain ⟨⟨ds, r⟩, hr, hp⟩ := h
    cases hp
    have := length_of_readDigits? hr
    simp only [List.length_cons]
    omega
  · cases h
    exact Nat.le_refl _

theorem length_of_readPower? {cs rest : List Char} {e : Option Int}
    (h : readPower? cs = some (e, rest)) : rest.length ≤ cs.length := by
  unfold readPower? at h
  split at h
  · rename_i c cs
    split at h
    · simp only [Option.map_eq_some_iff] at h
      obtain ⟨⟨ds, r⟩, hr, hp⟩ := h
      cases hp
      have hlt := length_of_readDigits? hr
      have hle : (match cs with
        | '+' :: ds => (false, ds)
        | '-' :: ds => (true, ds)
        | ds => (false, ds)).2.length ≤ cs.length := by
        split <;> simp
      simp only [List.length_cons]
      omega
    · cases h
      exact Nat.le_refl _
  · cases h
    exact Nat.le_refl _

theorem length_of_readNumber? {cs rest : List Char} {l : NumberLiteral}
    (h : readNumber? cs = some (l, rest)) : rest.length < cs.length := by
  unfold readNumber? at h
  have hle : (match cs with
    | '-' :: cs => (true, cs)
    | cs => (false, cs)).2.length ≤ cs.length := by
    split <;> simp
  revert h
  generalize (match cs with
    | '-' :: cs => (true, cs)
    | cs => (false, cs)) = signed at hle ⊢
  intro h
  dsimp only at h
  split at h
  · simp at h
  · rename_i hd
    split at h
    · simp at h
    · split at h
      · simp at h
      · rename_i hf
        simp only [Option.map_eq_some_iff] at h
        obtain ⟨⟨e, r⟩, hp, heq⟩ := h
        have hr := congrArg Prod.snd heq
        simp only at hr
        subst hr
        have h1 := length_of_readDigits? hd
        have h2 := length_of_readFraction? hf
        have h3 := length_of_readPower? hp
        omega

/-! ## Texts -/

/-- The value of a hexadecimal digit. -/
def hexDigit? (c : Char) : Option Nat :=
  if c.isDigit then some (c.toNat - 48)
  else if 'a' ≤ c && c ≤ 'f' then some (c.toNat - 87)
  else if 'A' ≤ c && c ≤ 'F' then some (c.toNat - 55)
  else none

/-- The value of four hexadecimal digits. -/
def hex4? (a b c d : Char) : Option Nat := do
  let a ← hexDigit? a
  let b ← hexDigit? b
  let c ← hexDigit? c
  let d ← hexDigit? d
  return ((a * 16 + b) * 16 + c) * 16 + d

/-- The character that a one-letter escape stands for. -/
def escape? : Char → Option Nat
  | '"' => some 34
  | '\\' => some 92
  | '/' => some 47
  | 'b' => some 8
  | 'f' => some 12
  | 'n' => some 10
  | 'r' => some 13
  | 't' => some 9
  | _ => none

/-- The code units of a text up to its closing quote: code points, and surrogates as they are
escaped. Control characters must be escaped. -/
def readUnits? : List Char → Option (List Nat × List Char)
  | [] => none
  | '"' :: rest => some ([], rest)
  | '\\' :: 'u' :: a :: b :: c :: d :: rest =>
    match hex4? a b c d, readUnits? rest with
    | some u, some (us, rest) => some (u :: us, rest)
    | _, _ => none
  | '\\' :: e :: rest =>
    match escape? e, readUnits? rest with
    | some u, some (us, rest) => some (u :: us, rest)
    | _, _ => none
  | c :: rest =>
    if c.toNat < 32 then none
    else
      match readUnits? rest with
      | some (us, rest) => some (c.toNat :: us, rest)
      | none => none

/-- Code units with surrogate pairs joined; `none` when a surrogate has no partner. -/
def joinUnits? : List Nat → Option (List Char)
  | [] => some []
  | high :: low :: rest =>
    if 0xD800 ≤ high && high < 0xDC00 then
      if 0xDC00 ≤ low && low < 0xE000 then
        (joinUnits? rest).map (Char.ofNat (0x10000 + (high - 0xD800) * 0x400 + (low - 0xDC00)) :: ·)
      else none
    else if 0xDC00 ≤ high && high < 0xE000 then none
    else (joinUnits? (low :: rest)).map (Char.ofNat high :: ·)
  | [last] => if 0xD800 ≤ last && last < 0xE000 then none else some [Char.ofNat last]

/-- **A text literal in front**, after its opening quote. -/
def readText? (cs : List Char) : Option (Option String × List Char) :=
  (readUnits? cs).map fun (units, rest) => ((joinUnits? units).map String.ofList, rest)

theorem length_of_readUnits? {cs : List Char} {us : List Nat} {rest : List Char}
    (h : readUnits? cs = some (us, rest)) : rest.length < cs.length := by
  fun_induction readUnits? cs generalizing us rest with
  | case1 => simp at h
  | case2 => simp_all
  | case3 _ _ _ _ _ _ _ _ hr _ ih =>
    cases h
    have := ih hr
    simp only [List.length_cons]
    omega
  | case4 => simp at h
  | case5 _ _ _ _ _ _ hr _ ih =>
    cases h
    have := ih hr
    simp only [List.length_cons]
    omega
  | case6 => simp at h
  | case7 => simp at h
  | case8 _ _ _ _ _ _ _ _ hr ih =>
    cases h
    have := ih hr
    simp only [List.length_cons]
    omega
  | case9 => simp at h

theorem length_of_readText? {cs rest : List Char} {s : Option String}
    (h : readText? cs = some (s, rest)) : rest.length < cs.length := by
  simp only [readText?, Option.map_eq_some_iff] at h
  obtain ⟨⟨us, r⟩, hr, hp⟩ := h
  cases hp
  exact length_of_readUnits? hr

end Storefront.Json
