import Mathlib.Algebra.Order.Ring.Nat
import Mathlib.Data.List.Infix

/-! # Patterns of LIKE

`compilePattern` reads a pattern to tokens and shortens runs of wildcards; `doMatch` runs the
tokens with one saved position. The matcher decides the language of every list of tokens, while
the shortening also drops the underscores after a percent sign, each of which asks for a byte. -/
namespace Scql.LikePattern

open List

inductive Token
  | patMatch (c : UInt8) | patOne | patAny

def compilePattern (escape : UInt8) : Bool → List UInt8 → List Token
  | _, [] => []
  | lastAny, c::rest =>
    if c = escape then
      match rest with
      | [] => [.patMatch escape]
      | d::rest' =>
        if d = escape ∨ d = '_'.toUInt8 ∨ d = '%'.toUInt8 then
          .patMatch d::compilePattern escape false rest'
        -- an invalid escape: the next character is read again
        else .patMatch escape::compilePattern escape false (d::rest')
    else if c = '_'.toUInt8 then
      if lastAny then compilePattern escape lastAny rest
      else .patOne::compilePattern escape lastAny rest
    else if c = '%'.toUInt8 then
      if lastAny then compilePattern escape lastAny rest
      else .patAny::compilePattern escape true rest
    else .patMatch c::compilePattern escape false rest

/-- The position to restart at, if there is one: the pattern after a wildcard and the rest of
the string. -/
abbrev Saved := Option (List Token × List UInt8)

/-- What is left of the pattern and of the string when the first token takes a byte. -/
def advance : List Token → List UInt8 → Option (List Token × List UInt8)
  | .patMatch c::p, a::s => if a = c then some (p, s) else none
  | .patOne::p, _::s => some (p, s)
  | _, _ => none

/-- A wildcard is tried again at the next byte, if there is one. -/
def save (p : List Token) : List UInt8 → Saved
  | [] => none
  | _::s => some (p, s)

/-- The loop of the matcher. A restart goes back to the saved wildcard, whose iteration follows
at once. -/
def doMatchLoop : ℕ → List Token → List UInt8 → Saved → Option Bool
  | 0, _, _, _ => none
  | _+1, [], [], _ => some true
  | n+1, .patAny::p, s, _ => doMatchLoop n p s (save p s)
  | n+1, p, s, saved =>
    match advance p s, saved with
    | some (p', s'), _ => doMatchLoop n p' s' saved
    | none, some (q, t) => doMatchLoop n q t (save q t)
    | none, none => some false

def doMatch (fuel : ℕ) (str : List UInt8) (pat : List Token) : Option Bool :=
  doMatchLoop fuel pat str none

/-- The strings a list of tokens stands for. -/
def like : List Token → List UInt8 → Bool
  | [], s => s.isEmpty
  | .patMatch _::_, [] | .patOne::_, [] => false
  | .patMatch c::p, a::s => a = c && like p s
  | .patOne::p, _::s => like p s
  | .patAny::p, s => s.tails.any (like p)

/-- The tokens of a pattern as SQL reads it: an escaped character is itself. -/
def tokens (escape : UInt8) : List UInt8 → List Token
  | [] => []
  | c::rest =>
    if c = escape then
      match rest with
      | [] => [.patMatch escape]
      | d::rest' => .patMatch d::tokens escape rest'
    else if c = '_'.toUInt8 then .patOne::tokens escape rest
    else if c = '%'.toUInt8 then .patAny::tokens escape rest
    else .patMatch c::tokens escape rest

/-- The escapes before a character that needs none: the escape itself is matched. -/
def invalidEscapes (escape : UInt8) : List UInt8 → ℕ
  | [] => 0
  | c::rest =>
    if c = escape then
      match rest with
      | [] => 0
      | d::rest' => invalidEscapes escape rest' +
        if d = escape ∨ d = '_'.toUInt8 ∨ d = '%'.toUInt8 then 0 else 1
    else invalidEscapes escape rest

/-- The underscores after a percent sign in a run of wildcards. -/
def droppedUnderscores (escape : UInt8) : Bool → List UInt8 → ℕ
  | _, [] => 0
  | lastAny, c::rest =>
    if c = escape then
      match rest with
      | [] => 0
      | _::rest' => droppedUnderscores escape false rest'
    else if c = '_'.toUInt8 then droppedUnderscores escape lastAny rest+lastAny.toNat
    else droppedUnderscores escape (c = '%'.toUInt8) rest

variable {p q : List Token} {s t : List UInt8} {saved : Saved}

lemma like_any : like (.patAny::p) s ↔ ∃ t, t <:+ s ∧ like p t := by
  simp [like]

/-- A wildcard also takes what stands before a suffix. -/
lemma like_any_of_suffix (h : t <:+ s) (hl : like (.patAny::p) t) : like (.patAny::p) s := by
  obtain ⟨u, hu, hp⟩ := like_any.mp hl
  exact like_any.mpr ⟨u, hu.trans h, hp⟩

lemma like_any_any (p : List Token) : like (.patAny::.patAny::p) = like (.patAny::p) := by
  funext s
  rw [Bool.eq_iff_iff, like_any]
  constructor
  · rintro ⟨t, ht, hl⟩
    exact like_any_of_suffix ht hl
  · intro hl
    exact ⟨s, suffix_rfl, hl⟩

lemma like_cons_congr (t : Token) (h : like p = like q) : like (t::p) = like (t::q) := by
  funext s
  cases t <;> cases s <;> simp [like, h]

/-- The first token of a list takes a byte or nothing matches. -/
lemma like_eq_advance (hp : ∀ q, p ≠ .patAny::q) (hne : p ≠ [] ∨ s ≠ []) :
  like p s = (advance p s).any (fun r => like r.1 r.2) := by
  rcases p with _ | ⟨_ | _ | _, p⟩ <;> cases s <;> simp_all [like, advance]
  split <;> simp_all

lemma doMatchLoop_succ (n : ℕ) (saved : Saved) (hp : ∀ q, p ≠ .patAny::q) (hne : p ≠ [] ∨ s ≠ []) :
  doMatchLoop (n+1) p s saved = match advance p s, saved with
    | some (p', s'), _ => doMatchLoop n p' s' saved
    | none, some (q, t) => doMatchLoop n q t (save q t)
    | none, none => some false := by
  rcases p with _ | ⟨_ | _ | _, p⟩ <;> cases s <;> simp_all <;> rfl

/-- What the loop answers: the rest matches, or the saved position does. -/
def answer (p : List Token) (s : List UInt8) (saved : Saved) : Bool :=
  like p s || saved.any fun r => like (.patAny::r.1) r.2

/-- The saved position is not lost: what it matches is also matched further on. -/
def Recoverable (p : List Token) (s : List UInt8) (saved : Saved) : Prop :=
  ∀ r ∈ saved, p.length ≤ r.1.length ∧ (like (.patAny::r.1) r.2 → ∃ t, t <:+ s ∧ like p t)

lemma recoverable_save (p : List Token) (s : List UInt8) : Recoverable p s (save p s) := by
  rcases s with _ | ⟨a, s⟩
  · rintro _ ⟨⟩
  · rintro _ ⟨⟩
    refine ⟨le_rfl, fun h => ?_⟩
    obtain ⟨t, ht, hl⟩ := like_any.mp h
    exact ⟨t, ht.trans (suffix_cons a s), hl⟩

lemma answer_save (p : List Token) (s : List UInt8) :
  answer p s (save p s) = like (.patAny::p) s := by
  cases s <;> simp [answer, save, like]

lemma advance_eq_some (h : advance p s = some (q, t)) : ∃ c a, p = c::q ∧ s = a::t ∧
  ∀ u, like p u → ∃ b v, u = b::v ∧ like q v := by
  rcases p with _ | ⟨c | _ | _, p⟩ <;> rcases s with _ | ⟨a, s⟩ <;> simp [advance] at h
  all_goals
    obtain ⟨rfl, rfl⟩ : p = q ∧ s = t := by simp_all
    refine ⟨_, _, rfl, rfl, fun u hu => ?_⟩
    cases u <;> simp_all [like]

lemma Recoverable.advance (h : Recoverable p s saved)
  (hadv : advance p s = some (q, t)) : Recoverable q t saved := by
  intro r hr
  obtain ⟨c, a, rfl, rfl, hmatch⟩ := advance_eq_some hadv
  obtain ⟨hlen, hlike⟩ := h r hr
  refine ⟨Nat.le_of_succ_le hlen, fun hl => ?_⟩
  obtain ⟨u, hu, hl⟩ := hlike hl
  obtain ⟨b, v, rfl, hv⟩ := hmatch u hl
  refine ⟨v, ?_, hv⟩
  obtain heq | hu := suffix_cons_iff.mp hu
  · cases heq
    exact suffix_rfl
  · exact (suffix_cons b v).trans hu

lemma enough_succ {f g : ℕ → Option Bool} {b : Bool} (hf : ∀ n, f (n+1) = g n)
  (h : ∃ N, ∀ n, N ≤ n → g n = some b) : ∃ N, ∀ n, N ≤ n → f n = some b := by
  obtain ⟨N, hN⟩ := h
  refine ⟨N+1, fun n hn => ?_⟩
  obtain ⟨k, rfl⟩ := Nat.exists_eq_add_of_le hn
  rw [Nat.add_right_comm, hf]
  exact hN _ (Nat.le_add_right N k)

/-- How much of the pattern the loop can still come back to, and how often. -/
def returns (p : List Token) (saved : Saved) : ℕ × ℕ :=
  saved.elim (p.length, 0) fun r => (r.1.length, r.2.length+1)

lemma returns_save (p : List Token) (s : List UInt8) :
    returns p (save p s) = (p.length, s.length) := by
  cases s <;> rfl

/-- With enough rounds the loop answers. The saved position is replaced by one for a later
wildcard or moves on, and between two such rounds the pattern gets shorter. -/
lemma doMatchLoop_answers (p : List Token) (s : List UInt8) (saved : Saved)
  (h : Recoverable p s saved) :
    ∃ N, ∀ n, N ≤ n → doMatchLoop n p s saved = some (answer p s saved) := by
  by_cases hend : p = [] ∧ s = []
  · obtain ⟨rfl, rfl⟩ := hend
    exact enough_succ (fun n => rfl) ⟨0, fun n _ => rfl⟩
  by_cases hany : ∃ q, p = .patAny::q
  · obtain ⟨q, hq⟩ := hany
    have heq : answer p s saved = answer q s (save q s) := by
      rw [answer_save, answer, hq, Bool.or_eq_left_iff_imp, Option.any_eq_true]
      rintro ⟨r, hr, hl⟩
      obtain ⟨t, ht, hl⟩ := (h r hr).2 hl
      exact like_any_of_suffix ht (hq ▸ hl)
    rw [heq]
    exact enough_succ (fun n => by rw [hq, doMatchLoop])
      (doMatchLoop_answers q s _ (recoverable_save q s))
  push Not at hany
  have hne : p ≠ [] ∨ s ≠ [] := not_and_or.mp hend
  have hround := fun n => doMatchLoop_succ n saved hany hne
  have hanswer : answer p s saved = _ := congrArg (· || _) (like_eq_advance hany hne)
  rcases hadv : advance p s with _ | ⟨q, t⟩ <;> rw [hadv] at hround hanswer
  · rcases hsaved : saved with _ | ⟨q, t⟩ <;> rw [hsaved] at hround hanswer
    · exact enough_succ hround ⟨0, fun n _ => by rw [hanswer]; rfl⟩
    · have heq : answer p s (some (q, t)) = answer q t (save q t) := by
        rw [answer_save, hanswer]; rfl
      rw [heq]
      exact enough_succ hround (doMatchLoop_answers q t _ (recoverable_save q t))
  · have heq : answer p s saved = answer q t saved := hanswer
    rw [heq]
    exact enough_succ hround (doMatchLoop_answers q t _ (h.advance hadv))
termination_by (returns p saved, p.length)
decreasing_by
  · rw [returns_save]
    have hlt : q.length < p.length := by simp [hq]
    cases saved with
    | none => exact .left _ _ (.left _ _ hlt)
    | some r => exact .left _ _ (.left _ _ (hlt.trans_le (h r rfl).1))
  · rw [returns_save, hsaved]
    exact .left _ _ (.right _ (Nat.lt_succ_self _))
  · obtain ⟨c, a, hp, -⟩ := advance_eq_some hadv
    have hlt : q.length < p.length := by simp [hp]
    cases saved with
    | none => exact .left _ _ (.left _ _ hlt)
    | some r => exact .right _ hlt

/-- The matcher decides the language of every list of tokens. -/
lemma doMatch_eq_like (str : List UInt8) (pat : List Token) :
  ∃ N, ∀ n, N ≤ n → doMatch n str pat = some (like pat str) := by
  have h := doMatchLoop_answers pat str none fun _ hr => nomatch hr
  rwa [answer, Option.any_none, Bool.or_false] at h

lemma like_append_congr (lastAny : Bool) (t : Token) (h : like p = like q) :
  like (cond lastAny [.patAny] [] ++ t::p) = like (cond lastAny [.patAny] [] ++ t::q) := by
  cases lastAny
  · exact like_cons_congr t h
  · exact like_cons_congr .patAny (like_cons_congr t h)

/-- A wildcard that was just read absorbs the percent signs that follow. -/
lemma like_compilePattern (escape : UInt8) (lastAny : Bool) (pattern : List UInt8)
  (hescape : invalidEscapes escape pattern = 0)
  (hdropped : droppedUnderscores escape lastAny pattern = 0) :
  like (cond lastAny [.patAny] [] ++ compilePattern escape lastAny pattern) =
    like (cond lastAny [.patAny] [] ++ tokens escape pattern) := by
  fun_induction compilePattern escape lastAny pattern
  all_goals
    unfold tokens
    unfold invalidEscapes at hescape
    unfold droppedUnderscores at hdropped
    simp [*] at hescape hdropped ⊢
  case case3 ih | case9 ih => exact like_append_congr _ _ (ih hescape hdropped)
  case case6 hl _ ih =>
    simp only [hl] at ih hdropped
    exact like_cons_congr .patOne (ih hescape hdropped)
  case case7 ih => exact (ih hescape hdropped).trans (like_any_any _).symm
  case case8 ih => exact ih hescape hdropped

section Weights

variable (w : UInt8 → ℕ)

def weight (s : List UInt8) : ℕ := (s.map w).sum

/-- The least weight of a string that a list of tokens stands for, if `m` is the least weight of a
byte. -/
def leastWeight (m : ℕ) : List Token → ℕ
  | [] => 0
  | .patMatch c::p => w c+leastWeight m p
  | .patOne::p => m+leastWeight m p
  | .patAny::p => leastWeight m p

lemma weight_le_of_suffix (h : t <:+ s) : weight w t ≤ weight w s := by
  obtain ⟨u, rfl⟩ := h
  simp [weight]

variable {w} {m : ℕ}

lemma leastWeight_le (hm : ∀ b, m ≤ w b) (h : like p s) : leastWeight w m p ≤ weight w s := by
  induction p generalizing s with
  | nil => exact Nat.zero_le _
  | cons token p ih =>
    cases token with
    | patAny =>
      obtain ⟨t, ht, hp⟩ := like_any.mp h
      exact (ih hp).trans (weight_le_of_suffix w ht)
    | patMatch c =>
      cases s with
      | nil => simp [like] at h
      | cons a s =>
        obtain ⟨rfl, hp⟩ : a = c ∧ like p s := by simpa [like] using h
        simpa [leastWeight, weight] using ih hp
    | patOne =>
      cases s with
      | nil => simp [like] at h
      | cons a s => simpa [leastWeight, weight] using Nat.add_le_add (hm a) (ih h)

lemma exists_leastWeight {b : UInt8} (hb : w b = m) (p : List Token) :
  ∃ s, like p s ∧ weight w s = leastWeight w m p := by
  induction p with
  | nil => exact ⟨[], rfl, rfl⟩
  | cons token p ih =>
    obtain ⟨s, hs, hweight⟩ := ih
    simp only [weight] at hweight
    cases token with
    | patMatch c => exact ⟨c::s, by simp [like, hs], by simp [weight, leastWeight, hweight]⟩
    | patOne => exact ⟨b::s, by simp [like, hs], by simp [weight, leastWeight, hweight, hb]⟩
    | patAny => exact ⟨s, like_any.mpr ⟨s, suffix_rfl, hs⟩, hweight⟩

/-- Lists of tokens that stand for the same strings have one least weight. -/
lemma leastWeight_eq_of_like_eq {b : UInt8} (hb : w b = m) (hm : ∀ b, m ≤ w b)
  (h : like p = like q) : leastWeight w m p = leastWeight w m q := by
  obtain ⟨s, hs, hsw⟩ := exists_leastWeight hb p
  obtain ⟨t, ht, htw⟩ := exists_leastWeight hb q
  have hpq := leastWeight_le hm (h ▸ hs : like q s)
  have hqp := leastWeight_le hm (h ▸ ht : like p t)
  omega

end Weights

/-- Every invalid escape adds a byte to match, and every dropped underscore takes one away. -/
lemma leastWeight_compilePattern (escape : UInt8) (lastAny : Bool) (pattern : List UInt8)
  {w : UInt8 → ℕ} {m : ℕ} :
  leastWeight w m (compilePattern escape lastAny pattern) +
      droppedUnderscores escape lastAny pattern * m =
    leastWeight w m (tokens escape pattern)+invalidEscapes escape pattern * w escape := by
  fun_induction compilePattern escape lastAny pattern
  all_goals
    unfold tokens invalidEscapes droppedUnderscores
    simp [*, leastWeight] at *
  case case4 d rest' ih hd =>
    -- the character after an invalid escape is read as an ordinary one
    have hrest : tokens escape (d::rest') = .patMatch d::tokens escape rest' ∧
        invalidEscapes escape (d::rest') = invalidEscapes escape rest' ∧
        droppedUnderscores escape false (d::rest') = droppedUnderscores escape false rest' := by
      rw [tokens.eq_def, invalidEscapes.eq_def, droppedUnderscores.eq_def]
      simp [hd]
    rw [hrest.1, hrest.2.1, hrest.2.2, leastWeight] at ih
    rw [Nat.add_mul]
    omega
  all_goals grind

def Matched (escape : UInt8) (pattern : List UInt8) : Prop :=
  ∀ str, ∃ N, ∀ n, N ≤ n →
    doMatch n str (compilePattern escape false pattern) = some (like (tokens escape pattern) str)

lemma matched_iff_like_eq {escape : UInt8} {pattern : List UInt8} : Matched escape pattern ↔
  like (compilePattern escape false pattern) = like (tokens escape pattern) := by
  constructor
  · intro h
    funext str
    obtain ⟨N, hN⟩ := h str
    obtain ⟨M, hM⟩ := doMatch_eq_like str (compilePattern escape false pattern)
    have heq := (hM (max M N) (le_max_left M N)).symm.trans (hN _ (le_max_right M N))
    exact Option.some.inj heq
  · intro h str
    rw [← h]
    exact doMatch_eq_like str _

end Scql.LikePattern
