import Mathlib.Tactic.Linarith
import Mathlib.Tactic.NormNum
import TradeGate.Settings.Patch

/-! What each key of a patch takes: which values are of the key's type, which others are taken for one
without an error, and which bounds an accepted value keeps. -/
namespace TradeGate.Settings
open Js Machine

/-- The error is about the key: its text begins with it. -/
def Names (key e : String) : Prop := ∃ c rest, e.toList=key.toList++c::rest ∧ (c = ' ' ∨ c = '.')

/-- The key is a word. -/
def IsWord (key : String) : Prop := ∀ c ∈ key.toList, c ≠ ' ' ∧ c ≠ '.'

instance (key : String) : Decidable (IsWord key) :=
  List.decidableBAll (fun c : Char => c ≠ ' ' ∧ c ≠ '.') key.toList

theorem Names.append {key e : String} (h : Names key e) (s : String) : Names key (e ++ s) := by
  obtain ⟨c,rest,he,hc⟩ := h
  exact ⟨c,rest++s.toList,by rw [String.toList_append,he,List.append_assoc,List.cons_append],hc⟩

/-- The text begins like one that stands behind a key. -/
def continues (s : String) : Bool := s.toList.head?.any fun c => c = ' ' ∨ c = '.'

theorem names_text (key : String) {s : String} (h : continues s=true) : Names key (key ++ s) := by
  obtain ⟨c,hc,h⟩ := (Option.any_eq_true _ _).mp h
  obtain ⟨rest,hs⟩ := List.head?_eq_some_iff.mp hc
  exact ⟨c,rest,by rw [String.toList_append,hs],of_decide_eq_true h⟩

theorem names_literal {key e s : String} (he : key ++ s=e) (h : continues s=true) : Names key e :=
  he ▸ names_text key h

/-- An error is about one key. -/
theorem Names.unique {k l e : String} (hk : IsWord k) (hl : IsWord l) (h : Names k e) (h' : Names l e) :
    k=l := by
  obtain ⟨c,rest,he,hc⟩ := h
  obtain ⟨d,rest',he',hd⟩ := h'
  have hword : ∀ {k : String} {c : Char} {rest : List Char}, IsWord k → (c = ' ' ∨ c = '.') →
      (k.toList++c::rest).takeWhile (fun c => c ≠ ' ' ∧ c ≠ '.')=k.toList := by
    intro k c rest hk hc
    rw [List.takeWhile_append_of_pos fun x hx => decide_eq_true (hk x hx),List.takeWhile_cons_of_neg,
      List.append_nil]
    rcases hc with rfl|rfl <;> decide
  apply String.toList_injective
  rw [← hword hk hc,← he,he',hword hl hd]

/-- A key with its bounds. -/
structure Guard where
  field : Field
  /-- The value is of the type that the workflow declares for the key. -/
  typed : Value → Prop
  /-- The value is converted, or throws, where it should be refused. -/
  slips : Value → Prop
  /-- The value keeps the bounds of the key. -/
  good : Value → Prop

/-- The guard describes how its field is read. -/
structure Guard.Sound (g : Guard) : Prop where
  word : IsWord g.field.key
  names : ∀ v errors x, g.field.read v=.ok (errors,x) → ∀ e ∈ errors, Names g.field.key e
  good : ∀ v errors x, g.field.read v=.ok (errors,some x) → ∀ w : Workflow,
    g.good (w g.field.key) → g.good (x w)
  total : ∀ v, g.typed v → ∃ r, g.field.read v=.ok r
  refuses : ∀ v, ¬g.typed v → ¬g.slips v → ∃ e, g.field.read v=.ok ([e],none)
  slips : ∀ v errors x, ¬g.typed v → g.slips v → g.field.read v=.ok (errors,x) → errors=[]

/-- A value is thrown at, refused or taken as it is. -/
inductive Verdict (f : Field) (v : Value) : Prop
  | throws (e : String) (h : f.read v=.error e)
  | refuses (why : String) (hn : Names f.key why) (h : f.read v=refused why)
  | takes (x : Value) (h : f.read v=given x)

/-- A guard whose field gives each value its verdict. -/
theorem Guard.Sound.of_verdicts {g : Guard} (hw : IsWord g.field.key) (h : ∀ v, Verdict g.field v)
    (hgood : ∀ v x, g.field.read v=given x → g.good x)
    (htotal : ∀ v e, g.typed v → g.field.read v ≠ .error e)
    (hslips : ∀ v, ¬g.typed v → (g.slips v ↔ ∀ why, g.field.read v ≠ refused why)) : g.Sound where
  word := hw
  names v errors x hr e he := by
    cases h v with
    | throws e h =>
      rw [h] at hr
      cases hr
    | refuses why hn h =>
      rw [h] at hr
      cases hr
      rwa [List.mem_singleton.mp he]
    | takes x h =>
      rw [h] at hr
      cases hr
      cases he
  good v errors x hr w _ := by
    cases h v with
    | throws e h =>
      rw [h] at hr
      cases hr
    | refuses why hn h =>
      rw [h] at hr
      cases hr
    | takes x h =>
      have hx := hgood v x h
      rw [h] at hr
      cases hr
      exact hx
  total v ht := by
    cases hr : g.field.read v with
    | ok r => exact ⟨r,rfl⟩
    | error e => exact absurd hr (htotal v e ht)
  refuses v ht hs := by
    rw [hslips v ht] at hs
    push Not at hs
    obtain ⟨why,hr⟩ := hs
    exact ⟨why,hr⟩
  slips v errors x ht hs hr := by
    cases h v with
    | throws e h =>
      rw [h] at hr
      cases hr
    | refuses why hn h => exact absurd h ((hslips v ht).mp hs why)
    | takes x h =>
      rw [h] at hr
      cases hr
      rfl

/-! Numbers.  The text of one may stand for it. -/

def isNumeral : Value → Prop
  | .num _ => True
  | .str s => trimmed s ≠ "" ∧ Js.Num.ofText s ≠ .nan
  | _ => False

theorem number?_of_isNumeral {v : Value} (h : isNumeral v) : ∃ x, v.number?=some x := by
  cases v with
  | num x => exact ⟨x,rfl⟩
  | str s => exact ⟨Js.Num.ofText s,rfl⟩
  | _ => exact h.elim

/-- The value is a number within bounds, or the text of one. -/
def numberIn (lo hi : ℚ) (v : Value) : Prop := ∃ q, v.number?=some (.fin q) ∧ lo ≤ q ∧ q ≤ hi

theorem given_ne_refused {x : Value} {why : String} : given x ≠ refused why := by
  intro h
  cases h

theorem error_ne_refused {e why : String} : (.error e : Reading) ≠ refused why := by
  intro h
  cases h

theorem given_inj {x y : Value} (h : given x=given y) : x=y := by
  have h' := congrArg (fun r : Reading => r.toOption.bind fun p => p.2.map fun f => f fun _ => .null) h
  exact Option.some.inj h'

/-- A key for numbers: whatever has an accepted number is taken for it. -/
def numericGuard (f : Field) (accepts : ℚ → Prop) (lo hi : ℚ) : Guard where
  field := f
  typed := isNumeral
  slips v := v.number?=none ∨ ∃ q, v.number?=some (.fin q) ∧ accepts q
  good := numberIn lo hi

/-- How a key for numbers is read. -/
inductive ReadsNumber (f : Field) (accepts : ℚ → Prop) (lo hi : ℚ) (v : Value) : Prop
  | throws (e : String) (hn : v.number?=none) (h : f.read v=.error e)
  | takes (q : ℚ) (x : Value) (hn : v.number?=some (.fin q)) (hq : accepts q) (h : f.read v=given x)
      (hx : numberIn lo hi x)
  | refuses (y : Js.Num) (why : String) (hn : v.number?=some y) (hy : ∀ q, y=.fin q → ¬accepts q)
      (hw : Names f.key why) (h : f.read v=refused why)

theorem numericGuard_sound {f : Field} {accepts : ℚ → Prop} {lo hi : ℚ} (hw : IsWord f.key)
    (h : ∀ v, ReadsNumber f accepts lo hi v) : (numericGuard f accepts lo hi).Sound := by
  refine .of_verdicts hw (fun v => ?_) (fun v x hr => ?_) (fun v e ht hr => ?_) fun v _ => ?_
  · cases h v with
    | throws e hn h => exact .throws e h
    | takes q x hn hq h hx => exact .takes x h
    | refuses y why hn hy hw h => exact .refuses why hw h
  · cases h v with
    | throws e hn h => cases h.symm.trans hr
    | takes q y hn hq h hx => exact given_inj (h.symm.trans hr) ▸ hx
    | refuses y why hn hy hw h => exact absurd (hr.symm.trans h) given_ne_refused
  · obtain ⟨y,hy⟩ := number?_of_isNumeral ht
    cases h v with
    | throws e hn h => cases hy.symm.trans hn
    | takes q x hn hq h hx => cases h.symm.trans hr
    | refuses y why hn hy hw h => cases h.symm.trans hr
  · cases h v with
    | throws e hn h =>
      exact iff_of_true (.inl hn) fun why hr => error_ne_refused (h.symm.trans hr)
    | takes q x hn hq h hx =>
      exact iff_of_true (.inr ⟨q,hn,hq⟩) fun why hr => given_ne_refused (h.symm.trans hr)
    | refuses y why hn hy hw h =>
      refine iff_of_false ?_ fun hr => hr why h
      rintro (hn'|⟨q,hn',hq⟩)
      · cases hn.symm.trans hn'
      · exact hy q (Option.some.inj (hn.symm.trans hn')) hq

/-- A number brought into its bounds. -/
theorem clamped_sound {key : String} {lo hi : ℚ} {put : ℚ → Value} (hw : IsWord key) (hb : lo ≤ hi)
    (hput : ∀ q, lo ≤ q → q ≤ hi → numberIn lo hi (put q)) :
    (numericGuard (clamped key lo hi put) (fun _ => True) lo hi).Sound := by
  refine numericGuard_sound hw fun v => ?_
  cases hn : v.number? with
  | none => exact .throws _ hn (by simp only [clamped,numberOf,orTypeError,hn]; rfl)
  | some y =>
    cases y with
    | fin q =>
      exact .takes q _ hn trivial (by simp only [clamped,numberOf,orTypeError,hn]; rfl)
        (hput _ (le_min hb (le_max_left _ _)) (min_le_left _ _))
    | _ =>
      have hr : (clamped key lo hi put).read v=refused (key ++ " 必须是数字") := by
        simp only [clamped,numberOf,orTypeError,hn]
        rfl
      exact .refuses _ _ hn (by rintro q ⟨⟩) (names_text key (by decide)) hr

/-- The number is whole and within bounds. -/
def wholeNumber (lo hi : ℕ) (q : ℚ) : Prop := q.den=1 ∧ lo ≤ q ∧ q ≤ hi

theorem numberIn_rational {lo hi q : ℚ} (h : lo ≤ q ∧ q ≤ hi) : numberIn lo hi (rational q) :=
  ⟨q,rfl,h⟩

theorem names_range (key : String) (lo hi : ℕ) :
    Names key (key ++ " 需在 " ++ toString lo ++ "–" ++ toString hi) :=
  (((names_text key (by decide)).append _).append _).append _

instance (lo hi : ℕ) (q : ℚ) : Decidable (wholeNumber lo hi q) := inferInstanceAs (Decidable (_ ∧ _ ∧ _))

theorem wholeIn_fin (key : String) (lo hi : ℕ) {v : Value} {q : ℚ} (h : v.number?=some (.fin q)) :
    wholeIn key lo hi v=.ok (if wholeNumber lo hi q then .ok q
      else .error (key ++ " 需在 " ++ toString lo ++ "–" ++ toString hi)) := by
  simp only [wholeIn,numberOf,orTypeError,h]
  rfl

theorem whole_sound {key : String} {lo hi : ℕ} (hw : IsWord key) :
    (numericGuard (whole key lo hi) (wholeNumber lo hi) lo hi).Sound := by
  refine numericGuard_sound hw fun v => ?_
  cases hn : v.number? with
  | none => exact .throws _ hn (by simp only [whole,wholeIn,numberOf,orTypeError,hn]; rfl)
  | some y =>
    cases y with
    | fin q =>
      by_cases hq : wholeNumber lo hi q
      · refine .takes q (rational q) hn hq ?_ (numberIn_rational hq.2)
        dsimp only [whole]
        rw [wholeIn_fin key lo hi hn,if_pos hq]
        rfl
      · refine .refuses _ _ hn (fun p hp => ?_) (names_range key lo hi) ?_
        · cases hp
          exact hq
        · dsimp only [whole]
          rw [wholeIn_fin key lo hi hn,if_neg hq]
          rfl
    | _ =>
      exact .refuses _ _ hn (by rintro q ⟨⟩) (names_range key lo hi)
        (by simp only [whole,wholeIn,numberOf,orTypeError,hn]; rfl)

theorem le_round (lo : ℤ) {q : ℚ} (h : lo ≤ q) : (lo : ℚ) ≤ round q := by
  unfold round
  exact_mod_cast Int.le_floor.mpr (by linarith)

theorem round_le (hi : ℤ) {q : ℚ} (h : q ≤ hi) : round q ≤ hi := by
  unfold round
  have : ⌊q+1/2⌋<hi+1 := Int.floor_lt.mpr (by push_cast; linarith)
  exact_mod_cast Int.lt_add_one_iff.mp this

theorem rounded (lo hi : ℤ) (q : ℚ) (h : lo ≤ q) (h' : q ≤ hi) :
    numberIn lo hi (rational (round q)) := numberIn_rational ⟨le_round lo h,round_le hi h'⟩

theorem interval_sound {key : String} (hw : IsWord key) : (numericGuard (interval key)
    (fun q => 3600000 ≤ q ∧ q ≤ 30*24*3600000) 3600000 (30*24*3600000)).Sound := by
  refine numericGuard_sound hw fun v => ?_
  have hwhy : Names key (key ++ " 需在 1 小时到 30 天之间(毫秒)") := names_text key (by decide)
  cases hn : v.number? with
  | none => exact .throws _ hn (by simp only [interval,numberOf,orTypeError,hn]; rfl)
  | some y =>
    cases y with
    | fin q =>
      have hread : (interval key).read v=if 3600000 ≤ q ∧ q ≤ 30*24*3600000 then
          given (rational (round q)) else refused (key ++ " 需在 1 小时到 30 天之间(毫秒)") := by
        simp only [interval,numberOf,orTypeError,hn]
        rfl
      by_cases hq : 3600000 ≤ q ∧ q ≤ 30*24*3600000
      · rw [if_pos hq] at hread
        refine .takes q _ hn hq hread ?_
        have hlo := le_round 3600000 (by exact_mod_cast hq.1)
        have hhi := round_le 2592000000 (q := q) (by push_cast; linarith [hq.2])
        push_cast at hlo hhi
        exact numberIn_rational ⟨hlo,by linarith⟩
      · rw [if_neg hq] at hread
        refine .refuses _ _ hn (fun p hp => ?_) hwhy hread
        cases hp
        exact hq
    | _ =>
      exact .refuses _ _ hn (by rintro q ⟨⟩) hwhy (by simp only [interval,numberOf,orTypeError,hn]; rfl)

/-! Keys whose values are taken by their type only. -/

def isFlag : Value → Prop
  | .bool _ => True
  | _ => False

def isText : Value → Prop
  | .str _ => True
  | _ => False

def isTexts : Value → Prop
  | .arr xs => ∀ x ∈ xs, isText x
  | _ => False

/-- A key that refuses every value that is not of its type. -/
def plainGuard (f : Field) (typed good : Value → Prop) : Guard := ⟨f,typed,fun _ => False,good⟩

theorem plainGuard_sound {f : Field} {typed good : Value → Prop} (hw : IsWord f.key)
    (h : ∀ v, (∃ why, Names f.key why ∧ f.read v=refused why) ∨
      ∃ x, f.read v=given x ∧ typed v ∧ good x) : (plainGuard f typed good).Sound := by
  refine .of_verdicts hw (fun v => ?_) (fun v x hr => ?_) (fun v e _ hr => ?_) fun v ht => ?_
  · obtain ⟨why,hn,h⟩|⟨x,h,-⟩ := h v
    · exact .refuses why hn h
    · exact .takes x h
  · obtain ⟨why,-,h⟩|⟨y,h,-,hg⟩ := h v
    · exact absurd (hr.symm.trans h) given_ne_refused
    · exact given_inj (h.symm.trans hr) ▸ hg
  · obtain ⟨why,-,h⟩|⟨y,h,-⟩ := h v
    · cases h.symm.trans hr
    · cases h.symm.trans hr
  · obtain ⟨why,-,h⟩|⟨y,-,ht',-⟩ := h v
    · exact iff_of_false id fun hr => hr why h
    · exact absurd ht' ht

theorem switch_sound {key : String} (hw : IsWord key) :
    (plainGuard (switch key) isFlag fun _ => True).Sound := by
  refine plainGuard_sound hw fun v => ?_
  cases v with
  | bool b => exact .inr ⟨.bool b,rfl,trivial,trivial⟩
  | _ => exact .inl ⟨key ++ " 必须是布尔",names_text key (by decide),rfl⟩

theorem oneOf_sound {key sep : String} {words : List String} (hw : IsWord key) :
    (plainGuard (oneOf key sep words) isText fun v => ∃ s ∈ words, v=.str s).Sound := by
  have hwhy : Names key (key ++ " 只能是 " ++ sep.intercalate words) :=
    (names_text key (by decide)).append _
  refine plainGuard_sound hw fun v => ?_
  cases v with
  | str s =>
    by_cases hs : s ∈ words
    · exact .inr ⟨.str s,by simp [oneOf,hs],trivial,s,hs,rfl⟩
    · exact .inl ⟨_,hwhy,by simp [oneOf,hs]⟩
  | _ => exact .inl ⟨_,hwhy,rfl⟩

theorem modelId_sound {key example_ : String} (hw : IsWord key) :
    (plainGuard (modelId key example_) (fun v => v=.null ∨ isText v) fun _ => True).Sound := by
  have hwhy : Names key (key ++ " 只能是模型 id(字母数字 . _ : / -,≤ 80 字符),如 " ++ example_) :=
    (names_text key (by decide)).append _
  refine plainGuard_sound hw fun v => ?_
  cases v with
  | null => exact .inr ⟨.null,rfl,.inl rfl,trivial⟩
  | str s =>
    by_cases hs : s=""
    · exact .inr ⟨.null,by simp [modelId,hs],.inr trivial,trivial⟩
    · by_cases hm : isModelId (trimmed s)=true
      · exact .inr ⟨.str (trimmed s),by simp [modelId,hs,hm],.inr trivial,trivial⟩
      · exact .inl ⟨_,hwhy,by simp [modelId,hs,hm]⟩
  | _ => exact .inl ⟨_,hwhy,rfl⟩

theorem widths_sliceChars (n : ℕ) (cs : List Char) : ((sliceChars n cs).map width).sum ≤ n := by
  induction cs generalizing n with
  | nil => exact Nat.zero_le _
  | cons c cs ih =>
    rw [sliceChars]
    split
    · have := ih (n-width c)
      simp only [List.map_cons,List.sum_cons]
      omega
    · exact Nat.zero_le _

theorem lengthOf_slice (n : ℕ) (s : String) : lengthOf (slice n s) ≤ n := by
  simpa [lengthOf,slice] using widths_sliceChars n s.toList

theorem playbookText_sound : (plainGuard playbookText isText fun v =>
    ∃ s, v=.str s ∧ lengthOf s ≤ playbookMaxChars).Sound := by
  refine plainGuard_sound (by decide) fun v => ?_
  cases v with
  | str s => exact .inr ⟨_,rfl,trivial,_,rfl,lengthOf_slice _ s⟩
  | _ => exact .inl ⟨_,names_literal (s := " 必须是字符串") rfl (by decide),rfl⟩

theorem symbols_sound {key : String} (hw : IsWord key) :
    (plainGuard (symbols key) isTexts fun _ => True).Sound := by
  have hwhy : Names key (key ++ " 必须是字符串数组") := names_text key (by decide)
  refine plainGuard_sound hw fun v => ?_
  cases v with
  | arr xs =>
    dsimp only [symbols]
    split
    · next hs =>
      refine .inr ⟨_,rfl,fun x hx => ?_,trivial⟩
      have := List.all_eq_true.mp hs x hx
      cases x <;> trivial
    · exact .inl ⟨_,hwhy,rfl⟩
  | _ => exact .inl ⟨_,hwhy,rfl⟩

/-! Keys whose values are converted to texts. -/

theorem timeframe_read (v : Value) : timeframe.read v=match v.text? with
    | none => .error "Cannot convert object to primitive value"
    | some tf => if tf ∈ timeframes then given (.str tf)
      else refused ("timeframe 只能是 " ++ "/".intercalate timeframes) := by
  dsimp only [timeframe,textOf,orTypeError]
  cases v.text? <;> rfl

def timeframeGuard : Guard where
  field := timeframe
  typed := isText
  slips v := v.text?=none ∨ ∃ tf ∈ timeframes, v.text?=some tf
  good v := ∃ tf ∈ timeframes, v=.str tf

theorem timeframeGuard_sound : timeframeGuard.Sound := by
  have hwhy : Names "timeframe" ("timeframe 只能是 " ++ "/".intercalate timeframes) :=
    (names_literal (s := " 只能是 ") rfl (by decide)).append _
  refine .of_verdicts (by decide) (fun v => ?_) (fun v x h => ?_) (fun v e ht h => ?_) fun v _ => ?_ <;>
    have hr := timeframe_read v
  · cases hv : v.text? with
    | none => exact .throws _ (by rw [timeframeGuard,hr,hv])
    | some tf =>
      rw [hv] at hr
      by_cases htf : tf ∈ timeframes
      · exact .takes _ (hr.trans (if_pos htf))
      · exact .refuses _ hwhy (hr.trans (if_neg htf))
  · rw [timeframeGuard,hr] at h
    split at h
    · cases h
    · next tf _ =>
      split_ifs at h with htf
      · exact ⟨tf,htf,(given_inj h).symm⟩
      · exact absurd h.symm given_ne_refused
  · cases v with
    | str s =>
      rw [timeframeGuard,hr] at h
      dsimp only [Value.text?] at h
      split_ifs at h <;> cases h
    | _ => exact ht
  · rw [timeframeGuard,hr]
    cases hv : v.text? with
    | none => exact iff_of_true (.inl hv) fun _ => error_ne_refused
    | some tf =>
      dsimp only
      split_ifs with htf
      · exact iff_of_true (.inr ⟨tf,htf,hv⟩) fun _ => given_ne_refused
      · refine iff_of_false ?_ fun h => h _ rfl
        rintro (hn|⟨s,hs,hn⟩)
        · cases hv.symm.trans hn
        · cases hv.symm.trans hn
          exact htf hs

theorem mapM_textOf {xs : List Value} (h : ∀ x ∈ xs, isText x) : ∃ list, xs.mapM textOf=.ok list := by
  induction xs with
  | nil => exact ⟨[],rfl⟩
  | cons x xs ih =>
    obtain ⟨list,hl⟩ := ih fun y hy => h y (List.mem_cons_of_mem _ hy)
    have hx := h x List.mem_cons_self
    cases x with
    | str s => exact ⟨s::list,by rw [List.mapM_cons,hl]; rfl⟩
    | _ => exact hx.elim

def watchlistGuard : Guard where
  field := watchlist
  typed := isTexts
  slips v := ∃ raw, v=.arr raw ∧ perpetuals raw ≠ .ok []
  good _ := True

/-- The errors that the watchlist can have. -/
theorem watchlist_read (v : Value) :
    (∃ raw, v=.arr raw ∧ ((∃ e, perpetuals raw=.error e ∧ watchlist.read v=.error e) ∨
      (perpetuals raw=.ok [] ∧ watchlist.read v=refused "watchlist 至少一个 USDT 永续,如 BTCUSDT") ∨
      ∃ list, perpetuals raw=.ok list ∧ list ≠ [] ∧ watchlist.read v=
        .ok ([],some fun w => .arr ((sliceTo (w "watchlist_max") list).map .str)))) ∨
    ((∀ raw, v ≠ .arr raw) ∧ watchlist.read v=refused "watchlist 必须是数组") := by
  cases v with
  | arr raw =>
    refine .inl ⟨raw,rfl,?_⟩
    dsimp only [watchlist]
    cases hp : perpetuals raw with
    | error e => exact .inl ⟨e,rfl,rfl⟩
    | ok list =>
      cases list with
      | nil => exact .inr (.inl ⟨rfl,rfl⟩)
      | cons x xs => exact .inr (.inr ⟨x::xs,rfl,List.cons_ne_nil x xs,rfl⟩)
  | _ => exact .inr ⟨(by rintro raw ⟨⟩),rfl⟩

theorem watchlistGuard_sound : watchlistGuard.Sound := by
  have hnone : Names "watchlist" "watchlist 至少一个 USDT 永续,如 BTCUSDT" :=
    names_literal (s := " 至少一个 USDT 永续,如 BTCUSDT") rfl (by decide)
  have hlist : Names "watchlist" "watchlist 必须是数组" := names_literal (s := " 必须是数组") rfl (by decide)
  refine ⟨by decide,fun v errors x h e he => ?_,fun _ _ _ _ _ _ => trivial,fun v ht => ?_,
    fun v ht hs => ?_,fun v errors x ht hs h => ?_⟩ <;>
    obtain ⟨raw,rfl,⟨e',hp,hr⟩|⟨hp,hr⟩|⟨list,hp,hl,hr⟩⟩|⟨hv,hr⟩ := watchlist_read v
  · cases hr.symm.trans h
  · cases hr.symm.trans h
    rw [List.mem_singleton.mp he]
    exact hnone
  · cases hr.symm.trans h
    cases he
  · cases hr.symm.trans h
    rw [List.mem_singleton.mp he]
    exact hlist
  · obtain ⟨list,hl⟩ := mapM_textOf ht
    rw [perpetuals,hl] at hp
    cases hp
  · exact ⟨_,hr⟩
  · exact ⟨_,hr⟩
  · exact ⟨_,hr⟩
  · exact absurd ⟨raw,rfl,by rw [hp]; rintro ⟨⟩⟩ hs
  · exact ⟨_,hr⟩
  · exact absurd ⟨raw,rfl,by rw [hp]; exact fun h => hl (Except.ok.inj h)⟩ hs
  · exact ⟨_,hr⟩
  · cases hr.symm.trans h
  · obtain ⟨raw',hraw,hne⟩ := hs
    cases hraw
    exact absurd hp hne
  · cases hr.symm.trans h
    rfl
  · obtain ⟨raw,hraw,-⟩ := hs
    exact absurd hraw (hv raw)

def watchOnlyGuard : Guard where
  field := watchOnly
  typed := isTexts
  slips v := ∃ raw, v=.arr raw
  good _ := True

theorem watchOnly_read (v : Value) :
    (∃ raw, v=.arr raw ∧ ((∃ e, raw.mapM textOf=.error e ∧ watchOnly.read v=.error e) ∨
      ∃ list value, raw.mapM textOf=.ok list ∧ watchOnly.read v=.ok ([],some value))) ∨
    ((∀ raw, v ≠ .arr raw) ∧ watchOnly.read v=refused "watch_only 必须是数组") := by
  cases v with
  | arr raw =>
    refine .inl ⟨raw,rfl,?_⟩
    dsimp only [watchOnly]
    cases hp : raw.mapM textOf with
    | error e => exact .inl ⟨e,rfl,rfl⟩
    | ok list => exact .inr ⟨list,_,rfl,rfl⟩
  | _ => exact .inr ⟨(by rintro raw ⟨⟩),rfl⟩

theorem watchOnlyGuard_sound : watchOnlyGuard.Sound := by
  have hlist : Names "watch_only" "watch_only 必须是数组" := names_literal (s := " 必须是数组") rfl (by decide)
  refine ⟨by decide,fun v errors x h e he => ?_,fun _ _ _ _ _ _ => trivial,fun v ht => ?_,
    fun v ht hs => ?_,fun v errors x ht hs h => ?_⟩ <;>
    obtain ⟨raw,rfl,⟨e',hp,hr⟩|⟨list,value,hp,hr⟩⟩|⟨hv,hr⟩ := watchOnly_read v
  · cases hr.symm.trans h
  · cases hr.symm.trans h
    cases he
  · cases hr.symm.trans h
    rw [List.mem_singleton.mp he]
    exact hlist
  · obtain ⟨list,hl⟩ := mapM_textOf ht
    cases hp.symm.trans hl
  · exact ⟨_,hr⟩
  · exact ⟨_,hr⟩
  · exact absurd ⟨raw,rfl⟩ hs
  · exact absurd ⟨raw,rfl⟩ hs
  · exact ⟨_,hr⟩
  · cases hr.symm.trans h
  · cases hr.symm.trans h
    rfl
  · obtain ⟨raw,hraw⟩ := hs
    exact absurd hraw (hv raw)

def activeStrategiesGuard : Guard where
  field := activeStrategies
  typed := isTexts
  slips v := ∃ raw, v=.arr raw ∧
    ∀ list, raw.mapM textOf=.ok list → ∀ x ∈ list, isStrategyId (trimmed x)=true
  good v := ∃ list : List String, v=.arr (list.map .str) ∧ list.length ≤ 4

/-- The texts that are no ids of strategies. -/
def badStrategies (list : List String) : List String :=
  (list.map trimmed).eraseDups.filter fun x => !isStrategyId x

theorem badStrategies_eq_nil {list : List String} :
    badStrategies list=[] ↔ ∀ x ∈ list, isStrategyId (trimmed x)=true := by
  simp [badStrategies,List.filter_eq_nil_iff]

theorem activeStrategies_read (v : Value) :
    (∃ raw, v=.arr raw ∧ ((∃ e, raw.mapM textOf=.error e ∧ activeStrategies.read v=.error e) ∨
      ∃ list, raw.mapM textOf=.ok list ∧ activeStrategies.read v=if badStrategies list=[] then
        given (.arr ((((list.map trimmed).eraseDups).take 4).map .str))
        else refused ("active_strategies 里不是合法策略 id:" ++ ", ".intercalate (badStrategies list)))) ∨
    ((∀ raw, v ≠ .arr raw) ∧ activeStrategies.read v=refused "active_strategies 必须是数组") := by
  cases v with
  | arr raw =>
    refine .inl ⟨raw,rfl,?_⟩
    dsimp only [activeStrategies]
    cases hp : raw.mapM textOf with
    | error e => exact .inl ⟨e,rfl,rfl⟩
    | ok list => exact .inr ⟨list,rfl,rfl⟩
  | _ => exact .inr ⟨(by rintro raw ⟨⟩),rfl⟩

theorem activeStrategiesGuard_sound : activeStrategiesGuard.Sound := by
  have hlist : Names "active_strategies" "active_strategies 必须是数组" :=
    names_literal (s := " 必须是数组") rfl (by decide)
  have hbad : ∀ list, Names "active_strategies"
      ("active_strategies 里不是合法策略 id:" ++ ", ".intercalate (badStrategies list)) := fun list =>
    (names_literal (s := " 里不是合法策略 id:") rfl (by decide)).append _
  refine .of_verdicts (by decide) (fun v => ?_) (fun v x h => ?_) (fun v e ht h => ?_) fun v _ => ?_ <;>
    obtain ⟨raw,rfl,⟨e',hp,hr⟩|⟨list,hp,hr⟩⟩|⟨hv,hr⟩ := activeStrategies_read v
  · exact .throws e' hr
  · by_cases hb : badStrategies list=[]
    · exact .takes _ (hr.trans (if_pos hb))
    · exact .refuses _ (hbad list) (hr.trans (if_neg hb))
  · exact .refuses _ hlist hr
  · cases hr.symm.trans h
  · have hx := hr.symm.trans h
    split_ifs at hx with hb
    · exact ⟨_,(given_inj hx).symm,List.length_take_le _ _⟩
    · exact absurd hx.symm given_ne_refused
  · exact absurd (h.symm.trans hr) given_ne_refused
  · obtain ⟨list,hl⟩ := mapM_textOf ht
    cases hp.symm.trans hl
  · have hx := hr.symm.trans h
    split_ifs at hx <;> cases hx
  · cases hr.symm.trans h
  · refine iff_of_true ⟨raw,rfl,fun list hl => ?_⟩ fun why h => error_ne_refused (hr.symm.trans h)
    cases hp.symm.trans hl
  · have hb : activeStrategiesGuard.slips (.arr raw) ↔ badStrategies list=[] := by
      rw [badStrategies_eq_nil]
      constructor
      · rintro ⟨raw',hraw,h⟩
        cases hraw
        exact h list hp
      · intro h
        refine ⟨raw,rfl,fun list' hl' => ?_⟩
        cases hp.symm.trans hl'
        exact h
    rw [hb]
    constructor
    · exact fun hb why h => given_ne_refused ((if_pos hb).symm.trans (hr.symm.trans h))
    · intro h
      by_contra hb
      exact h _ (hr.trans (if_neg hb))
  · refine iff_of_false ?_ fun h => h _ hr
    rintro ⟨raw,hraw,-⟩
    exact hv raw hraw

/-! The launch commands. -/

def cliCommandsGuard : Guard where
  field := cliCommands
  typed v := ∃ fields, v=.obj fields
  slips _ := False
  good v := ∀ f ∈ membersOf v, ∃ s, f.2=.str s ∧ lengthOf s ≤ 500

theorem names_cliError {k e : String} {v : Value} (h : cliError k v=some e) : Names "cli_commands" e := by
  unfold cliError at h
  have hdot : ∀ s, Names "cli_commands" ("cli_commands." ++ s) := fun s =>
    (names_literal (s := ".") rfl (by decide)).append s
  split at h
  · obtain ⟨e',-,rfl⟩ := Option.map_eq_some_iff.mp h
    exact ((hdot k).append _).append _
  · cases h
    exact ((hdot k).append _).append _

/-- An accepted command is not too long. -/
theorem short_of_cliError {k s : String} (h : cliError k (.str s)=none) : lengthOf (trimmed s) ≤ 500 := by
  unfold cliError at h
  split at h
  · rw [Option.map_eq_none_iff,cliCommandError] at h
    split_ifs at h with h₁ h₂
    exact not_lt.mp h₂
  · cases h

theorem putKey_good {o : List (String × Value)} {k : String} {v : Value}
    (ho : ∀ f ∈ o, ∃ s, f.2=.str s ∧ lengthOf s ≤ 500) (hv : ∃ s, v=.str s ∧ lengthOf s ≤ 500) :
    ∀ f ∈ putKey o k v, ∃ s, f.2=.str s ∧ lengthOf s ≤ 500 := by
  unfold putKey
  intro f hf
  split at hf
  · obtain ⟨g,hg,rfl⟩ := List.mem_map.mp hf
    split
    · exact hv
    · exact ho g hg
  · rcases List.mem_append.mp hf with hf|hf
    · exact ho f hf
    · rw [List.mem_singleton.mp hf]
      exact hv

theorem foldl_putKey_good {good o : List (String × Value)}
    (ho : ∀ f ∈ o, ∃ s, f.2=.str s ∧ lengthOf s ≤ 500)
    (hg : ∀ f ∈ good, ∃ s, f.2=.str s ∧ lengthOf s ≤ 500) :
    ∀ f ∈ good.foldl (fun o f => putKey o f.1 f.2) o, ∃ s, f.2=.str s ∧ lengthOf s ≤ 500 := by
  induction good generalizing o with
  | nil => exact ho
  | cons g good ih =>
    obtain ⟨hg,hgood⟩ := List.forall_mem_cons.mp hg
    exact ih (putKey_good ho hg) hgood

theorem cliCommandsGuard_sound : cliCommandsGuard.Sound := by
  refine ⟨by decide,fun v errors x h e he => ?_,fun v errors x h w hw => ?_,fun v ht => ?_,
    fun v ht _ => ?_,fun v errors x _ hs => hs.elim⟩
  · cases v with
    | obj raw =>
      cases h
      obtain ⟨f,-,hf⟩ := List.mem_filterMap.mp he
      exact names_cliError hf
    | _ =>
      cases h
      rw [List.mem_singleton.mp he]
      exact names_literal (s := " 必须是对象,如 \x7b\"claude\":\"claudeproxy\"\x7d") rfl (by decide)
  · cases v with
    | obj raw =>
      cases h
      refine foldl_putKey_good hw fun f hf => ?_
      obtain ⟨g,-,hg⟩ := List.mem_filterMap.mp hf
      split at hg
      · next s hs he =>
        cases hg
        exact ⟨trimmed s,rfl,short_of_cliError (he ▸ hs)⟩
      · cases hg
    | _ => cases h
  · obtain ⟨fields,rfl⟩ := ht
    exact ⟨_,rfl⟩
  · cases v with
    | obj raw => exact absurd ⟨raw,rfl⟩ ht
    | _ => exact ⟨_,rfl⟩

end TradeGate.Settings
