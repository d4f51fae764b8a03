import Mathlib.Algebra.Order.Ring.Nat
import Mathlib.Data.List.Basic

/-! # Date formats

A date format of MySQL is turned into one of Arrow, specifier by specifier. An escaped percent
sign is copied as a bare one, which the next character then completes to a specifier. -/
namespace Scql.DateFormat

inductive Field
  | year | yearOfCentury | month | monthUnpadded | day | dayUnpadded | hour | hourUnpadded
  | hour12 | hour12Unpadded | minute | second | microsecond | amPm
  | monthAbbreviation | monthName | weekdayAbbreviation | weekdayName

inductive Item
  | field (f : Field) | literal (c : Char)

/-- What the specifiers of MySQL stand for. -/
def specifierItems : Char → Option (List Item)
  | 'Y' => some [.field .year]
  | 'y' => some [.field .yearOfCentury]
  | 'm' => some [.field .month]
  | 'c' => some [.field .monthUnpadded]
  | 'd' => some [.field .day]
  | 'e' => some [.field .dayUnpadded]
  | 'H' => some [.field .hour]
  | 'k' => some [.field .hourUnpadded]
  | 'h' | 'I' => some [.field .hour12]
  | 'l' => some [.field .hour12Unpadded]
  | 'i' => some [.field .minute]
  | 'S' | 's' => some [.field .second]
  | 'f' => some [.field .microsecond]
  | 'p' => some [.field .amPm]
  | 'T' => some [.field .hour, .literal ':', .field .minute, .literal ':', .field .second]
  | 'r' => some [.field .hour12, .literal ':', .field .minute, .literal ':', .field .second,
      .literal ' ', .field .amPm]
  | 'b' => some [.field .monthAbbreviation]
  | 'M' => some [.field .monthName]
  | 'a' => some [.field .weekdayAbbreviation]
  | 'W' => some [.field .weekdayName]
  | _ => none

/-- The fields and the text of a format of MySQL, if it is made of supported specifiers. -/
def mySQLItems : List Char → Option (List Item)
  | [] => some []
  | '%':: '%'::rest => (mySQLItems rest).map (.literal '%'::·)
  | '%'::c::rest => do
    let items ← specifierItems c
    (mySQLItems rest).map (items ++ ·)
  | '%'::[] => none
  | c::rest => (mySQLItems rest).map (.literal c::·)

def arrowField : Char → Option Field
  | 'Y' => some .year
  | 'y' => some .yearOfCentury
  | 'm' => some .month
  | 'd' => some .day
  | 'H' => some .hour
  | 'I' => some .hour12
  | 'M' => some .minute
  | 'S' => some .second
  | 'f' => some .microsecond
  | 'p' => some .amPm
  | 'b' => some .monthAbbreviation
  | 'B' => some .monthName
  | 'a' => some .weekdayAbbreviation
  | 'A' => some .weekdayName
  | _ => none

def arrowUnpadded : Char → Option Field
  | 'm' => some .monthUnpadded
  | 'd' => some .dayUnpadded
  | 'H' => some .hourUnpadded
  | 'I' => some .hour12Unpadded
  | _ => none

/-- The fields and the text of a format of Arrow. -/
def arrowItems : List Char → Option (List Item)
  | [] => some []
  | '%':: '%'::rest => (arrowItems rest).map (.literal '%'::·)
  | '%':: '-'::c::rest => do
    let f ← arrowUnpadded c
    (arrowItems rest).map (.field f::·)
  | '%'::c::rest => do
    let f ← arrowField c
    (arrowItems rest).map (.field f::·)
  | '%'::[] => none
  | c::rest => (arrowItems rest).map (.literal c::·)

def kMySQLToArrowFormatMapping : Char → Option String
  | 'Y' => some "%Y"
  | 'y' => some "%y"
  | 'm' => some "%m"
  | 'c' => some "%-m"
  | 'd' => some "%d"
  | 'e' => some "%-d"
  | 'H' => some "%H"
  | 'k' => some "%-H"
  | 'h' | 'I' => some "%I"
  | 'l' => some "%-I"
  | 'i' => some "%M"
  | 'S' | 's' => some "%S"
  | 'f' => some "%f"
  | 'p' => some "%p"
  | 'T' => some "%H:%M:%S"
  | 'r' => some "%I:%M:%S %p"
  | 'b' => some "%b"
  | 'M' => some "%B"
  | 'a' => some "%a"
  | 'W' => some "%A"
  | _ => none

def mySQLDateFormatToArrowFormat : List Char → Except String (List Char)
  | [] => .ok []
  | '%':: '%'::rest => do
    return '%'::(← mySQLDateFormatToArrowFormat rest)
  | '%'::c::rest =>
    match kMySQLToArrowFormatMapping c with
    | none => .error ("unsupported MySQL format specifier: %" ++ c.toString)
    | some arrowSpecifier => do
      return arrowSpecifier.toList ++ (← mySQLDateFormatToArrowFormat rest)
  | '%'::[] => .error "invalid format string: trailing %"
  | c::rest => do
    return c::(← mySQLDateFormatToArrowFormat rest)

/-- The format is translated to one with the same fields and text. -/
def Preserved (format : List Char) : Prop :=
  ∀ items, mySQLItems format = some items →
    ∃ out, mySQLDateFormatToArrowFormat format = .ok out ∧ arrowItems out = some items

def escapedPercents : List Char → ℕ
  | '%':: '%'::rest => escapedPercents rest+1
  | '%'::_::rest => escapedPercents rest
  | _::rest => escapedPercents rest
  | [] => 0

/-- The number of characters Arrow needs to write an item. -/
def Item.width : Item → ℕ
  | .literal c => if c = '%' then 2 else 1
  | .field .monthUnpadded | .field .dayUnpadded | .field .hourUnpadded
  | .field .hour12Unpadded => 3
  | .field _ => 2

def width (items : List Item) : ℕ := (items.map Item.width).sum

@[simp] lemma width_cons (item : Item) (items : List Item) :
  width (item::items) = item.width+width items := by
  simp [width]

@[simp] lemma width_append (items others : List Item) :
  width (items ++ others) = width items+width others := by
  simp [width]

lemma mapping_specifier {c : Char} {items : List Item} (h : specifierItems c = some items) :
  ∃ s, kMySQLToArrowFormatMapping c = some s ∧ width items = s.toList.length ∧ ∀ rest,
    arrowItems (s.toList ++ rest) = (arrowItems rest).map (items ++ ·) := by
  unfold specifierItems at h
  split at h <;> cases h <;> exact ⟨_, rfl, by decide,
    fun rest => by simp [arrowItems, arrowField, arrowUnpadded, Function.comp_def]⟩

lemma width_arrowField {c : Char} {f : Field} (h : arrowField c = some f) :
  (Item.field f).width = 2 := by
  unfold arrowField at h
  split at h <;> cases h <;> rfl

lemma width_arrowUnpadded {c : Char} {f : Field} (h : arrowUnpadded c = some f) :
  (Item.field f).width = 3 := by
  unfold arrowUnpadded at h
  split at h <;> cases h <;> rfl

/-- Reading a format of Arrow uses up all of its characters. -/
lemma width_arrowItems {format : List Char} {items : List Item}
  (h : arrowItems format = some items) : width items = format.length := by
  fun_induction arrowItems format generalizing items with
  | case1 =>
    cases h
    rfl
  | case2 rest ih =>
    obtain ⟨others, hothers, rfl⟩ := Option.map_eq_some_iff.mp h
    simp [Item.width, ih hothers]
    omega
  | case3 c rest ih =>
    simp only [Option.bind_eq_bind, Option.bind_eq_some_iff, Option.map_eq_some_iff] at h
    obtain ⟨f, hf, others, hothers, rfl⟩ := h
    simp [width_arrowUnpadded hf, ih hothers]
    omega
  | case4 c rest hc hminus ih =>
    simp only [Option.bind_eq_bind, Option.bind_eq_some_iff, Option.map_eq_some_iff] at h
    obtain ⟨f, hf, others, hothers, rfl⟩ := h
    simp [width_arrowField hf, ih hothers]
    omega
  | case5 => cases h
  | case6 c rest h₁ h₂ h₃ h₄ ih =>
    obtain ⟨others, hothers, rfl⟩ := Option.map_eq_some_iff.mp h
    have hc : c ≠ '%' := by
      rintro rfl
      cases rest with
      | nil => exact h₄ rfl rfl
      | cons d rest => exact h₃ d rest rfl rfl
    simp [Item.width, hc, ih hothers]
    omega

lemma arrowItems_literal {c : Char} (hc : c ≠ '%') (rest : List Char) :
  arrowItems (c::rest) = (arrowItems rest).map (.literal c::·) := by
  rw [arrowItems.eq_def]
  split <;> simp_all

/-- The translation has one character less than needed for every escaped percent sign, and is
faithful without one. -/
lemma translation_of_items {format : List Char} {items : List Item}
  (h : mySQLItems format = some items) :
  ∃ out, mySQLDateFormatToArrowFormat format = .ok out ∧
    width items = out.length+escapedPercents format ∧
    (escapedPercents format = 0 → arrowItems out = some items) := by
  fun_induction mySQLItems format generalizing items with
  | case1 =>
    cases h
    exact ⟨[], rfl, rfl, fun _ => rfl⟩
  | case2 rest ih =>
    obtain ⟨others, hothers, rfl⟩ := Option.map_eq_some_iff.mp h
    obtain ⟨out, hout, hwidth, -⟩ := ih hothers
    refine ⟨'%'::out, ?_, ?_, fun hnone => ?_⟩
    · rw [mySQLDateFormatToArrowFormat, hout]
      rfl
    · simp [escapedPercents, Item.width, hwidth]
      omega
    · simp [escapedPercents] at hnone
  | case3 c rest hc ih =>
    simp only [Option.bind_eq_bind, Option.bind_eq_some_iff, Option.map_eq_some_iff] at h
    obtain ⟨field, hfield, others, hothers, rfl⟩ := h
    obtain ⟨out, hout, hwidth, hread⟩ := ih hothers
    obtain ⟨s, hs, hlength, harrow⟩ := mapping_specifier hfield
    rw [escapedPercents.eq_2 _ _ hc]
    refine ⟨s.toList ++ out, ?_, ?_, fun hnone => by rw [harrow, hread hnone]; rfl⟩
    · rw [mySQLDateFormatToArrowFormat.eq_3 _ _ hc, hs, hout]
      rfl
    · rw [width_append, List.length_append, hwidth, hlength, Nat.add_assoc]
  | case4 => cases h
  | case5 c rest h₁ h₂ h₃ ih =>
    have hc : c ≠ '%' := by
      rintro rfl
      cases rest with
      | nil => exact h₃ rfl rfl
      | cons d rest => exact h₂ d rest rfl rfl
    obtain ⟨others, hothers, rfl⟩ := Option.map_eq_some_iff.mp h
    obtain ⟨out, hout, hwidth, hread⟩ := ih hothers
    rw [escapedPercents.eq_3 _ _ h₁ h₂]
    refine ⟨c::out, ?_, ?_, fun hnone => by rw [arrowItems_literal hc, hread hnone]; rfl⟩
    · rw [mySQLDateFormatToArrowFormat.eq_5 _ _ h₁ h₂ h₃, hout]
      rfl
    · simp [Item.width, hc, hwidth]
      omega

end Scql.DateFormat
