import TradeGate.Number.Decimal
import TradeGate.Settings.Guards

/-! A patch and the bounds of the workflow.  Whatever the patch is, a workflow within its bounds stays
within them; whether a value of a wrong type is refused depends on what it is converted to. -/
namespace TradeGate.Settings
open Js Machine

def clampedGuard (f : Field) (lo hi : ℚ) : Guard := numericGuard f (fun _ => True) lo hi

def wholeGuard (key : String) (lo hi : ℕ) : Guard :=
  numericGuard (whole key lo hi) (wholeNumber lo hi) lo hi

def intervalGuard (key : String) : Guard :=
  numericGuard (interval key) (fun q => 3600000 ≤ q ∧ q ≤ 30*24*3600000) 3600000 (30*24*3600000)

def flagGuard (key : String) : Guard := plainGuard (switch key) isFlag fun _ => True

def wordGuard (key sep : String) (words : List String) : Guard :=
  plainGuard (oneOf key sep words) isText fun v => ∃ s ∈ words, v=.str s

def modelGuard (f : Field) : Guard := plainGuard f (fun v => v=.null ∨ isText v) fun _ => True

def symbolsGuard (key : String) : Guard := plainGuard (symbols key) isTexts fun _ => True

/-- The guards of the keys before `watchlist_max`, in their order. -/
def firstGuards : List Guard :=
  [watchlistGuard,timeframeGuard,clampedGuard infoEveryMs 120000 21600000,clampedGuard riskPct (1/10) 2,
    clampedGuard leverage 1 10,wordGuard "margin_mode" "/" ["cross","isolated"],
    clampedGuard maxOpenThreads 1 6,clampedGuard maxOpensPerDay 1 12,
    clampedGuard dailyLossStopPct (1/2) 20,flagGuard "auto_approve",wordGuard "brain" "/" brains,
    wordGuard "cheap_brain" "/" brains,modelGuard (brainModel "brain_model"),
    modelGuard (brainModel "cheap_brain_model"),
    plainGuard playbookText isText (fun v => ∃ s, v=.str s ∧ lengthOf s ≤ playbookMaxChars),
    wholeGuard "invalidation_confirm_bars" 1 5,clampedGuard invalidationBufferAtr 0 1,
    flagGuard "screener_enabled",flagGuard "screener_use_brain",flagGuard "screener_expectancy",
    intervalGuard "screener_short_every_ms",intervalGuard "screener_swing_every_ms",
    wholeGuard "screener_max_symbols" 1 300,
    wordGuard "screener_universe" " / " ["watchlist+whitelist","top_volume","explicit"],
    wordGuard "screener_apply" " / " ["propose","auto"],symbolsGuard "screener_symbols",
    symbolsGuard "screener_whitelist"]

def watchlistMaxGuard : Guard := wholeGuard "watchlist_max" 1 300

/-- The guards of the keys after `watch_only`, in their order. -/
def lastGuards : List Guard :=
  [flagGuard "paused",flagGuard "narrate",flagGuard "chat_requires_approval",
    wordGuard "scan_mode" "/" ["triggered","every_close"],clampedGuard heartbeatEveryMs 300000 14400000,
    clampedGuard fastMovePct (1/5) 5,flagGuard "review_every_close",
    wordGuard "execution" "/" ["paper","demo","cli","agent_mcp"],
    wordGuard "exec_agent_cli" "/" ["claude","codex"],modelGuard execAgentModel,activeStrategiesGuard,
    clampedGuard dailyJudgmentCap 0 5000,cliCommandsGuard]

theorem firstGuards_fields : firstGuards.map Guard.field=firstFields := rfl

theorem lastGuards_fields : lastGuards.map Guard.field=lastFields := rfl

def guards : List Guard := firstGuards ++ [watchlistMaxGuard,watchOnlyGuard] ++ lastGuards

theorem guards_keys_nodup : (guards.map fun g => g.field.key).Nodup := by decide +kernel

section
variable {c : ℕ} {a b : ℤ} {lo hi q : ℚ}

/-- Rounded to a number of decimals. -/
theorem round_scaled (hc : 0<c) (ha : lo=a/c) (hb : hi=b/c) (h : lo ≤ q) (h' : q ≤ hi) :
    lo ≤ round (q*c)/c ∧ round (q*c)/c ≤ hi := by
  have hc' : (0 : ℚ)<c := by exact_mod_cast hc
  rw [ha,div_le_iff₀ hc'] at h
  rw [hb,le_div_iff₀ hc'] at h'
  rw [ha,hb]
  exact ⟨div_le_div_of_nonneg_right (le_round a h) hc'.le,div_le_div_of_nonneg_right (round_le b h') hc'.le⟩

theorem den_round_scaled {j : ℕ} (hc : c ∣ 10^j) (q : ℚ) : (round (q*c)/c).den ∣ 10^j := by
  have hden := Rat.den_dvd ⌊q*c+1/2⌋ c
  refine dvd_trans ?_ hc
  unfold round
  exact_mod_cast hden

end

theorem clampedRound_sound {key : String} (a b : ℤ) {lo hi : ℚ} (hw : IsWord key) (ha : lo=a) (hb : hi=b)
    (hle : lo ≤ hi) : (clampedGuard (clamped key lo hi fun q => rational (round q)) lo hi).Sound := by
  subst ha hb
  exact clamped_sound hw hle (rounded a b)

/-- Rounded to a number of decimals, as a text. -/
theorem clampedText_sound {key : String} (n j : ℕ) (a b : ℤ) {c lo hi : ℚ} (hw : IsWord key) (hn : 0<n)
    (hj : n ∣ 10^j) (hc : c=n) (ha : lo=a/c) (hb : hi=b/c) (hlo : 1/10^6 ≤ lo) (hhi : hi<10^21)
    (hle : lo ≤ hi) :
    (clampedGuard (clamped key lo hi fun q => .str (numberText (round (q*c)/c))) lo hi).Sound := by
  subst hc
  refine clamped_sound hw hle fun q h h' => ?_
  obtain ⟨hge,hle⟩ := round_scaled hn ha hb h h'
  refine ⟨round (q*n)/n,?_,hge,hle⟩
  rw [Value.number?,ofText_numberText (den_round_scaled hj q) (hlo.trans hge) (hle.trans_lt hhi)]

theorem invalidationBuffer_sound : (clampedGuard invalidationBufferAtr 0 1).Sound := by
  refine clamped_sound (by decide) (by norm_num) fun q h h' => numberIn_rational ?_
  exact_mod_cast round_scaled (c := 100) (a := 0) (b := 100) (by decide) (by norm_num) (by norm_num) h h'

theorem firstGuards_sound : ∀ g ∈ firstGuards, g.Sound := by
  have hflag : ∀ {key : String}, IsWord key → (flagGuard key).Sound := switch_sound
  have hword : ∀ {key : String} sep words, IsWord key → (wordGuard key sep words).Sound :=
    fun sep words => oneOf_sound
  have hwhole : ∀ {key : String} lo hi, IsWord key → (wholeGuard key lo hi).Sound := fun lo hi => whole_sound
  have hinterval : ∀ {key : String}, IsWord key → (intervalGuard key).Sound := interval_sound
  have hsymbols : ∀ {key : String}, IsWord key → (symbolsGuard key).Sound := symbols_sound
  have hmodel : ∀ {key : String}, IsWord key → (modelGuard (brainModel key)).Sound := modelId_sound
  simp only [firstGuards,List.forall_mem_cons]
  refine ⟨watchlistGuard_sound,timeframeGuard_sound,
    clampedRound_sound 120000 21600000 (by decide) (by norm_num) (by norm_num) (by norm_num),
    clampedText_sound 100 2 10 200 (by decide) (by decide) (by decide) (by norm_num) (by norm_num)
      (by norm_num) (by norm_num) (by norm_num) (by norm_num),
    clampedRound_sound 1 10 (by decide) (by norm_num) (by norm_num) (by norm_num),
    hword _ _ (by decide),
    clampedRound_sound 1 6 (by decide) (by norm_num) (by norm_num) (by norm_num),
    clampedRound_sound 1 12 (by decide) (by norm_num) (by norm_num) (by norm_num),
    clampedText_sound 10 1 5 200 (by decide) (by decide) (by decide) (by norm_num) (by norm_num)
      (by norm_num) (by norm_num) (by norm_num) (by norm_num),
    hflag (by decide),hword _ _ (by decide),hword _ _ (by decide),hmodel (by decide),hmodel (by decide),
    playbookText_sound,hwhole _ _ (by decide),invalidationBuffer_sound,hflag (by decide),
    hflag (by decide),hflag (by decide),hinterval (by decide),hinterval (by decide),
    hwhole _ _ (by decide),hword _ _ (by decide),hword _ _ (by decide),hsymbols (by decide),
    hsymbols (by decide),List.forall_mem_nil _⟩

theorem lastGuards_sound : ∀ g ∈ lastGuards, g.Sound := by
  have hflag : ∀ {key : String}, IsWord key → (flagGuard key).Sound := switch_sound
  have hword : ∀ {key : String} sep words, IsWord key → (wordGuard key sep words).Sound :=
    fun sep words => oneOf_sound
  simp only [lastGuards,List.forall_mem_cons]
  refine ⟨hflag (by decide),hflag (by decide),hflag (by decide),hword _ _ (by decide),
    clampedRound_sound 300000 14400000 (by decide) (by norm_num) (by norm_num) (by norm_num),
    clampedText_sound 100 2 20 500 (by decide) (by decide) (by decide) (by norm_num) (by norm_num)
      (by norm_num) (by norm_num) (by norm_num) (by norm_num),
    hflag (by decide),hword _ _ (by decide),hword _ _ (by decide),modelId_sound (by decide),
    activeStrategiesGuard_sound,
    clampedRound_sound 0 5000 (by decide) (by norm_num) (by norm_num) (by norm_num),
    cliCommandsGuard_sound,List.forall_mem_nil _⟩

theorem watchlistMaxGuard_sound : watchlistMaxGuard.Sound := whole_sound (by decide)

theorem guards_sound : ∀ g ∈ guards, g.Sound := by
  intro g hg
  rcases List.mem_append.mp hg with hg|hg
  · rcases List.mem_append.mp hg with hg|hg
    · exact firstGuards_sound g hg
    · rcases List.mem_pair.mp hg with rfl|rfl
      · exact watchlistMaxGuard_sound
      · exact watchOnlyGuard_sound
  · exact lastGuards_sound g hg

/-! The steps of a patch. -/

/-- A key, and what happens to the workflow once the key has a new value. -/
structure Step where
  guard : Guard
  settle : Workflow → Workflow

def Step.run (patch : Patch) (p : Patching) (s : Step) : Except String Patching :=
  match field patch s.guard.field.key with
  | none => .ok p
  | some v => do
    let (errors,value) ← s.guard.field.read v
    return ⟨value.elim p.next fun x =>
      s.settle (Function.update p.next s.guard.field.key (x p.next)),p.errors++errors⟩

/-- The watchlist is cut to its largest length. -/
def cut (w : Workflow) : Workflow :=
  match (w "watchlist_max").number? with
  | some (.fin n) =>
    if n<(elements (w "watchlist")).length then
      Function.update w "watchlist" (.arr (sliceTo (w "watchlist_max") (elements (w "watchlist"))))
    else w
  | _ => w

def earlySteps : List Step :=
  firstGuards.map (⟨·,id⟩) ++ [⟨watchlistMaxGuard,cut⟩,⟨watchOnlyGuard,id⟩]

def lateSteps : List Step := lastGuards.map (⟨·,id⟩)

theorem applyWatchlistMax_eq (patch : Patch) (p : Patching) :
    applyWatchlistMax patch p=Step.run patch p ⟨watchlistMaxGuard,cut⟩ := by
  have hkey : watchlistMaxGuard.field.key="watchlist_max" := rfl
  have hfield : watchlistMaxGuard.field=whole "watchlist_max" 1 300 := rfl
  unfold applyWatchlistMax Step.run
  rw [hkey,hfield]
  cases field patch "watchlist_max" with
  | none => rfl
  | some v =>
    dsimp only [whole]
    cases wholeIn "watchlist_max" 1 300 v with
    | error e => rfl
    | ok r =>
      cases r with
      | error e => rfl
      | ok n =>
        change Except.ok _=Except.ok _
        rw [List.append_nil]
        congr 2

theorem applyFields_eq (patch : Patch) (gs : List Guard) (p : Patching) :
    (gs.map Guard.field).foldlM (applyField patch) p=(gs.map (⟨·,id⟩)).foldlM (Step.run patch) p := by
  rw [List.foldlM_map,List.foldlM_map]
  rfl

/-- A patch is applied step by step. -/
theorem applyWorkflowPatch_eq (w : Workflow) (patch : Patch) (now : ℕ) : applyWorkflowPatch w patch now=do
    let p ← earlySteps.foldlM (Step.run patch) ⟨w,[]⟩
    let p ← lateSteps.foldlM (Step.run patch) ⟨keepWatched p.next,p.errors⟩
    return ⟨Function.update p.next "updated_at" (rational now),p.errors⟩ := by
  have htwo : ∀ p, [⟨watchlistMaxGuard,cut⟩,⟨watchOnlyGuard,id⟩].foldlM (Step.run patch) p =
      applyWatchlistMax patch p >>= fun p => applyField patch p watchOnly := by
    intro p
    rw [applyWatchlistMax_eq,List.foldlM_cons]
    congr 1
    funext p
    rw [List.foldlM_cons]
    exact bind_pure _
  unfold applyWorkflowPatch earlySteps lateSteps
  simp only [← firstGuards_fields,← lastGuards_fields,applyFields_eq,List.foldlM_append,htwo,bind_assoc]

section
variable {patch : Patch} {w : Workflow} {p q : Patching} {s : Step} {now : ℕ}

theorem Step.run_ok (h : Step.run patch p s=.ok q) :
    field patch s.guard.field.key=none ∧ q=p ∨ ∃ v errors value, field patch s.guard.field.key=some v ∧
      s.guard.field.read v=.ok (errors,value) ∧ q.errors=p.errors++errors ∧
      q.next=value.elim p.next fun x => s.settle (Function.update p.next s.guard.field.key (x p.next)) := by
  unfold Step.run at h
  split at h
  · next hn =>
    cases h
    exact .inl ⟨hn,rfl⟩
  · next v hv =>
    obtain ⟨⟨errors,value⟩,hr,h⟩ := bind_ok.mp h
    cases h
    exact .inr ⟨v,errors,value,hv,hr,rfl,rfl⟩

/-- A guard is told by its key. -/
theorem guard_eq {g g' : Guard} (hg : g ∈ guards) (hg' : g' ∈ guards) (h : g.field.key=g'.field.key) :
    g=g' := List.inj_on_of_nodup_map guards_keys_nodup hg hg' h

theorem guard_of_mem_steps (hs : s ∈ earlySteps ++ lateSteps) :
    s.guard ∈ guards ∧ (s=⟨watchlistMaxGuard,cut⟩ ∨ s.settle=id ∧ s.guard.field.key ≠ "watchlist_max") := by
  have hkey : ∀ g ∈ firstGuards ++ watchOnlyGuard::lastGuards, g.field.key ≠ "watchlist_max" := by
    decide +kernel
  have hmem : ∀ g ∈ firstGuards ++ watchOnlyGuard::lastGuards, g ∈ guards := by
    intro g hg
    simp only [guards,List.mem_append,List.mem_cons] at hg ⊢
    tauto
  have hplain : ∀ g ∈ firstGuards ++ watchOnlyGuard::lastGuards, s=⟨g,id⟩ → s.guard ∈ guards ∧
      (s=⟨watchlistMaxGuard,cut⟩ ∨ s.settle=id ∧ s.guard.field.key ≠ "watchlist_max") := by
    rintro g hg rfl
    exact ⟨hmem g hg,.inr ⟨rfl,hkey g hg⟩⟩
  rcases List.mem_append.mp hs with hs|hs
  · rcases List.mem_append.mp hs with hs|hs
    · obtain ⟨g,hg,he⟩ := List.mem_map.mp hs
      exact hplain g (List.mem_append_left _ hg) he.symm
    · rcases List.mem_pair.mp hs with rfl|he
      · exact ⟨by simp [guards],.inl rfl⟩
      · exact hplain _ (by simp) he
  · obtain ⟨g,hg,he⟩ := List.mem_map.mp hs
    exact hplain g (List.mem_append_right _ (List.mem_cons_of_mem _ hg)) he.symm

/-! The bounds. -/

theorem nodup_eraseDups {α : Type} [DecidableEq α] (xs : List α) : xs.eraseDups.Nodup := by
  induction hn : xs.length using Nat.strong_induction_on generalizing xs with
  | _ n ih =>
    cases xs with
    | nil => exact List.nodup_nil
    | cons x xs =>
      rw [List.eraseDups_cons,List.nodup_cons]
      have hlen : (xs.filter fun b => b != x).length<n :=
        (List.length_filter_le _ _).trans_lt (by rw [← hn,List.length_cons]; omega)
      refine ⟨fun hx => ?_,ih _ hlen _ rfl⟩
      have := (List.mem_filter.mp (List.mem_eraseDups.mp hx)).2
      simp at this

/-- Every key keeps its bounds. -/
def Goods (w : Workflow) : Prop := ∀ g ∈ guards, g.good (w g.field.key)

/-- The watchlist has symbols, each once, and not too many of them. -/
def Listed (w : Workflow) : Prop := ∃ list : List String, ∃ n : ℚ, w "watchlist"=.arr (list.map .str) ∧
  (w "watchlist_max").number?=some (.fin n) ∧ list ≠ [] ∧ list.Nodup ∧ list.length ≤ n

/-- What is watched only is on the watchlist. -/
def Watched (w : Workflow) : Prop := ∀ s ∈ elements (w "watch_only"), s ∈ elements (w "watchlist")

structure InBounds (w : Workflow) : Prop where
  goods : Goods w
  listed : Listed w
  watched : Watched w

theorem Goods.update {g : Guard} {x : Value} (hw : Goods w) (hg : g ∈ guards) (hx : g.good x) :
    Goods (Function.update w g.field.key x) := by
  intro g' hg'
  by_cases he : g'.field.key=g.field.key
  · obtain rfl := guard_eq hg' hg he
    rwa [Function.update_self]
  · rw [Function.update_of_ne he]
    exact hw g' hg'

theorem Goods.largest (hw : Goods w) : ∃ n : ℚ, (w "watchlist_max").number?=some (.fin n) ∧ 1 ≤ n := by
  obtain ⟨n,hn,hle,-⟩ := hw watchlistMaxGuard (by simp [guards])
  exact ⟨n,hn,by exact_mod_cast hle⟩

/-- A list that is cut has symbols left, since its largest length is at least one. -/
theorem sliceTo_listed {v : Value} {n : ℚ} {list : List String} (hv : v.number?=some (.fin n)) (hn : 1 ≤ n)
    (hne : list ≠ []) (hnd : list.Nodup) : ∃ short : List String, sliceTo v (list.map Value.str)=short.map .str ∧
      short=sliceTo v list ∧ short ≠ [] ∧ short.Nodup ∧ short.length ≤ n := by
  have hfloor : 1 ≤ ⌊n⌋ := Int.le_floor.mpr (by exact_mod_cast hn)
  have hslice : ∀ {α : Type} (xs : List α), sliceTo v xs=xs.take ⌊n⌋.toNat := by
    intro α xs
    unfold sliceTo
    rw [hv]
    dsimp only
    rw [if_neg (by linarith)]
  refine ⟨sliceTo v list,?_,rfl,?_,?_,?_⟩
  · rw [hslice,hslice,List.map_take]
  · rw [hslice,Ne,List.take_eq_nil_iff]
    exact not_or.mpr ⟨by omega,hne⟩
  · rw [hslice]
    exact hnd.sublist (List.take_sublist _ _)
  · have hlen : (sliceTo v list).length ≤ ⌊n⌋.toNat := by
      rw [hslice]
      exact List.length_take_le _ _
    have hfin : ((⌊n⌋.toNat : ℤ) : ℚ) ≤ n := by
      rw [Int.toNat_of_nonneg (by omega)]
      exact Int.floor_le n
    calc ((sliceTo v list).length : ℚ)
      _ ≤ (⌊n⌋.toNat : ℕ) := by exact_mod_cast hlen
      _ ≤ n := by exact_mod_cast hfin

theorem perpetuals_nodup {raw : List Value} {list : List String} (h : perpetuals raw=.ok list) :
    list.Nodup := by
  obtain ⟨texts,-,h⟩ := bind_ok.mp h
  cases h
  exact nodup_eraseDups _

/-- A new watchlist. -/
theorem Listed.watchlist {v : Value} {errors : List String} {x : Workflow → Value} {n : ℚ}
    (hr : watchlist.read v=.ok (errors,some x)) (hn : (w "watchlist_max").number?=some (.fin n))
    (hle : 1 ≤ n) : Listed (Function.update w "watchlist" (x w)) := by
  obtain ⟨raw,rfl,⟨e,-,h⟩|⟨-,h⟩|⟨list,hp,hne,h⟩⟩|⟨-,h⟩ := watchlist_read v
  · cases h.symm.trans hr
  · cases h.symm.trans hr
  · cases h.symm.trans hr
    obtain ⟨short,-,hshort,hs⟩ := sliceTo_listed hn hle hne (perpetuals_nodup hp)
    refine ⟨short,n,?_,?_,hs⟩
    · rw [Function.update_self,hshort]
    · rw [Function.update_of_ne (by decide),hn]
  · cases h.symm.trans hr

theorem Listed.of_agree {w' : Workflow} (hw : Listed w) (hl : w' "watchlist"=w "watchlist")
    (hm : w' "watchlist_max"=w "watchlist_max") : Listed w' := by
  obtain ⟨list,n,h,hn,hrest⟩ := hw
  exact ⟨list,n,hl.trans h,hm ▸ hn,hrest⟩

/-- Cutting a watchlist. -/
theorem Listed.cut {x : Value} {n : ℚ} (hw : Listed w) (hx : x.number?=some (.fin n)) (hn : 1 ≤ n) :
    Listed (cut (Function.update w "watchlist_max" x)) := by
  obtain ⟨list,-,hlist,-,hne,hnd,-⟩ := hw
  have hmax : Function.update w "watchlist_max" x "watchlist_max"=x := Function.update_self _ _ _
  have hlist' : Function.update w "watchlist_max" x "watchlist"=.arr (list.map .str) :=
    (Function.update_of_ne (by decide) _ _).trans hlist
  obtain ⟨short,hshort,-,hs⟩ := sliceTo_listed hx hn hne hnd
  unfold Settings.cut
  rw [hmax,hx,hlist',show elements (.arr (list.map .str))=list.map .str from rfl]
  dsimp only
  by_cases hlen : n<(list.map Value.str).length
  · rw [if_pos hlen]
    refine ⟨short,n,?_,?_,hs⟩
    · rw [Function.update_self,hshort]
    · rw [Function.update_of_ne (by decide),hmax,hx]
  · rw [if_neg hlen]
    rw [List.length_map] at hlen
    exact ⟨list,n,hlist',hmax ▸ hx,hne,hnd,not_lt.mp hlen⟩

theorem cut_cases (w : Workflow) : cut w=w ∨ ∃ x, cut w=Function.update w "watchlist" x := by
  unfold cut
  split
  · split
    · exact .inr ⟨_,rfl⟩
    · exact .inl rfl
  · exact .inl rfl

theorem Goods.cut (hw : Goods w) : Goods (cut w) := by
  obtain h|⟨x,h⟩ := cut_cases w
  · rwa [h]
  · rw [h]
    exact hw.update (g := watchlistGuard) (by simp [guards,firstGuards]) trivial

/-- One step keeps the bounds. -/
theorem Step.bounds (hs : s ∈ earlySteps ++ lateSteps) (h : Step.run patch p s=.ok q) (hg : Goods p.next)
    (hl : Listed p.next) : Goods q.next ∧ Listed q.next := by
  obtain ⟨hmem,hkind⟩ := guard_of_mem_steps hs
  obtain ⟨-,rfl⟩|⟨v,errors,value,hv,hr,-,hq⟩ := Step.run_ok h
  · exact ⟨hg,hl⟩
  cases value with
  | none =>
    rw [hq]
    exact ⟨hg,hl⟩
  | some x =>
    have hgood := hg.update hmem ((guards_sound _ hmem).good v errors x hr p.next (hg _ hmem))
    rw [hq]
    dsimp only [Option.elim]
    rcases hkind with rfl|⟨hid,hkey⟩
    · obtain ⟨n,hn,hle⟩ := hgood.largest
      have hself : Function.update p.next watchlistMaxGuard.field.key (x p.next) "watchlist_max"=x p.next :=
        Function.update_self _ _ _
      exact ⟨hgood.cut,hl.cut (hself ▸ hn) hle⟩
    · rw [hid]
      refine ⟨hgood,?_⟩
      by_cases hlist : s.guard.field.key="watchlist"
      · obtain ⟨guard,settle⟩ := s
        obtain rfl : guard=watchlistGuard :=
          guard_eq hmem (by simp [guards,firstGuards]) hlist
        obtain ⟨n,hn,hle⟩ := hg.largest
        exact Listed.watchlist hr hn hle
      · exact hl.of_agree (Function.update_of_ne (Ne.symm hlist) _ _) (Function.update_of_ne (Ne.symm hkey) _ _)

theorem keepWatched_watched (w : Workflow) : Watched (keepWatched w) := by
  intro s hs
  rw [keepWatched,Function.update_self] at hs
  rw [keepWatched_off (by decide)]
  simpa using (List.mem_filter.mp hs).2

theorem Goods.keepWatched (hw : Goods w) : Goods (keepWatched w) :=
  hw.update (g := watchOnlyGuard) (by simp [guards]) trivial

theorem lateSteps_off {k : String} (hk : k ∉ lastFields.map Field.key) {ps qs : Patching}
    (h : lateSteps.foldlM (Step.run patch) ps=.ok qs) : qs.next k=ps.next k := by
  unfold lateSteps at h
  rw [← applyFields_eq,lastGuards_fields] at h
  exact applyFields_off h fun hmem => absurd hmem hk

theorem steps_bounds {ss : List Step} (hss : ss ⊆ earlySteps ++ lateSteps)
    (h : ss.foldlM (Step.run patch) p=.ok q) (hg : Goods p.next) (hl : Listed p.next) :
    Goods q.next ∧ Listed q.next :=
  foldlM_invariant (I := fun q : Patching => Goods q.next ∧ Listed q.next) h ⟨hg,hl⟩
    fun _ hs _ _ hI hrun => Step.bounds (hss hs) hrun hI.1 hI.2

/-- The two passes of a patch. -/
theorem applyWorkflowPatch_passes (h : applyWorkflowPatch w patch now=.ok q) : ∃ a b,
    earlySteps.foldlM (Step.run patch) ⟨w,[]⟩=.ok a ∧
    lateSteps.foldlM (Step.run patch) ⟨keepWatched a.next,a.errors⟩=.ok b ∧
    q=⟨Function.update b.next "updated_at" (rational now),b.errors⟩ := by
  rw [applyWorkflowPatch_eq] at h
  obtain ⟨a,ha,h⟩ := bind_ok.mp h
  obtain ⟨b,hb,h⟩ := bind_ok.mp h
  cases h
  exact ⟨a,b,ha,hb,rfl⟩

theorem not_stamp : ∀ g ∈ guards, g.field.key ≠ "updated_at" := by decide +kernel

/-- A patch ends within the bounds. -/
theorem InBounds.applied (hw : InBounds w) (h : applyWorkflowPatch w patch now=.ok q) : InBounds q.next := by
  obtain ⟨a,b,ha,hb,rfl⟩ := applyWorkflowPatch_passes h
  obtain ⟨hga,hla⟩ := steps_bounds (List.subset_append_left _ _) ha hw.goods hw.listed
  have hkept : Listed (keepWatched a.next) :=
    hla.of_agree (keepWatched_off (by decide)) (keepWatched_off (by decide))
  obtain ⟨hgb,hlb⟩ := steps_bounds (List.subset_append_right _ _) hb hga.keepWatched hkept
  have hstamp : ∀ k, k ≠ "updated_at" →
      Function.update b.next "updated_at" (rational now) k=b.next k := fun k hk => Function.update_of_ne hk _ _
  have hlate : ∀ k ∈ ["watchlist","watch_only"], b.next k=keepWatched a.next k := by
    have hall : ∀ k ∈ ["watchlist","watch_only"], k ∉ lastFields.map Field.key := by decide +kernel
    exact fun k hk => lateSteps_off (hall k hk) hb
  refine ⟨fun g hg => ?_,?_,?_⟩
  · dsimp only
    rw [hstamp _ (not_stamp g hg)]
    exact hgb g hg
  · exact hlb.of_agree (hstamp "watchlist" (by decide)) (hstamp "watchlist_max" (by decide))
  · unfold Watched
    dsimp only
    rw [hstamp "watch_only" (by decide),hstamp "watchlist" (by decide),hlate _ (by decide),
      hlate _ (by decide)]
    exact keepWatched_watched a.next

/-! What a patch reports, and what a value of a wrong type does to it. -/

theorem Step.errors (h : Step.run patch p s=.ok q) : p.errors ⊆ q.errors := by
  obtain ⟨-,rfl⟩|⟨v,errors,value,-,-,hq,-⟩ := Step.run_ok h
  · exact List.Subset.refl _
  · rw [hq]
    exact List.subset_append_left _ _

theorem steps_errors {ss : List Step} (h : ss.foldlM (Step.run patch) p=.ok q) : p.errors ⊆ q.errors :=
  foldlM_invariant (I := fun q => p.errors ⊆ q.errors) h (List.Subset.refl _) fun _ _ _ _ hI hs =>
    List.Subset.trans hI (Step.errors hs)

/-- The error was reported when the value of some key was read. -/
def Told (patch : Patch) (e : String) : Prop := ∃ g ∈ guards, ∃ v errors value,
  field patch g.field.key=some v ∧ g.field.read v=.ok (errors,value) ∧ e ∈ errors

theorem steps_told {ss : List Step} (hss : ss ⊆ earlySteps ++ lateSteps)
    (h : ss.foldlM (Step.run patch) p=.ok q) (hp : ∀ e ∈ p.errors, Told patch e) :
    ∀ e ∈ q.errors, Told patch e := by
  refine foldlM_invariant (I := fun q : Patching => ∀ e ∈ q.errors, Told patch e) h hp ?_
  intro s hs b c hI hrun e he
  obtain ⟨-,rfl⟩|⟨v,errors,value,hv,hr,hc,-⟩ := Step.run_ok hrun
  · exact hI e he
  · rw [hc] at he
    rcases List.mem_append.mp he with he|he
    · exact hI e he
    · exact ⟨s.guard,(guard_of_mem_steps (hss hs)).1,v,errors,value,hv,hr,he⟩

theorem told_of_applied (h : applyWorkflowPatch w patch now=.ok q) : ∀ e ∈ q.errors, Told patch e := by
  obtain ⟨a,b,ha,hb,rfl⟩ := applyWorkflowPatch_passes h
  have htold := steps_told (List.subset_append_left _ _) ha (by rintro e ⟨⟩)
  have hlate := steps_told (List.subset_append_right _ _) hb htold
  exact hlate

theorem exists_step {g : Guard} (hg : g ∈ guards) : (∃ s ∈ earlySteps, s.guard=g) ∨ ∃ s ∈ lateSteps, s.guard=g := by
  rcases List.mem_append.mp hg with hg|hg
  · refine .inl ?_
    rcases List.mem_append.mp hg with hg|hg
    · exact ⟨⟨g,id⟩,List.mem_append_left _ (List.mem_map_of_mem hg),rfl⟩
    · rcases List.mem_pair.mp hg with rfl|rfl
      · exact ⟨⟨watchlistMaxGuard,cut⟩,by simp [earlySteps],rfl⟩
      · exact ⟨⟨watchOnlyGuard,id⟩,by simp [earlySteps],rfl⟩
  · exact .inr ⟨⟨g,id⟩,List.mem_map_of_mem hg,rfl⟩

theorem steps_read {ss : List Step} {v : Value} (h : ss.foldlM (Step.run patch) p=.ok q) (hs : s ∈ ss)
    (hv : field patch s.guard.field.key=some v) :
    ∃ errors value, s.guard.field.read v=.ok (errors,value) ∧ errors ⊆ q.errors := by
  obtain ⟨ss',-,d,e,hrun,hrest⟩ := foldlM_mem h hs
  obtain ⟨hn,-⟩|⟨v',errors,value,hv',hr,he,-⟩ := Step.run_ok hrun
  · cases hv.symm.trans hn
  · cases hv.symm.trans hv'
    refine ⟨errors,value,hr,List.Subset.trans ?_ (steps_errors hrest)⟩
    rw [he]
    exact List.subset_append_right _ _

/-- Every value that the patch has for a key is read, and its errors are reported. -/
theorem read_of_applied {g : Guard} {v : Value} (h : applyWorkflowPatch w patch now=.ok q)
    (hg : g ∈ guards) (hv : field patch g.field.key=some v) :
    ∃ errors value, g.field.read v=.ok (errors,value) ∧ errors ⊆ q.errors := by
  obtain ⟨a,b,ha,hb,rfl⟩ := applyWorkflowPatch_passes h
  obtain ⟨s,hs,rfl⟩|⟨s,hs,rfl⟩ := exists_step hg
  · obtain ⟨errors,value,hr,he⟩ := steps_read ha hs hv
    have hlate := steps_errors hb
    exact ⟨errors,value,hr,List.Subset.trans he hlate⟩
  · have hlate := steps_read hb hs hv
    exact hlate

theorem steps_total {ss : List Step} (hr : ∀ s ∈ ss, ∀ v, field patch s.guard.field.key=some v →
    ∃ r, s.guard.field.read v=.ok r) : ∃ q, ss.foldlM (Step.run patch) p=.ok q := by
  have hgo : ∀ s ∈ ss, ∀ b : Patching, True → ∃ c, Step.run patch b s=.ok c ∧ True := by
    intro s hs b _
    unfold Step.run
    cases hv : field patch s.guard.field.key with
    | none => exact ⟨b,rfl,trivial⟩
    | some v =>
      obtain ⟨r,hr⟩ := hr s hs v hv
      exact ⟨_,bind_ok.mpr ⟨r,hr,rfl⟩,trivial⟩
  obtain ⟨q,hq,-⟩ := foldlM_total (I := fun _ => True) trivial hgo
  exact ⟨q,hq⟩

/-- A patch whose values can be read does not throw. -/
theorem applied_of_read (w : Workflow) (now : ℕ) (hr : ∀ g ∈ guards, ∀ v, field patch g.field.key=some v → ∃ r, g.field.read v=.ok r) :
    ∃ q, applyWorkflowPatch w patch now=.ok q := by
  have hread : ∀ s ∈ earlySteps ++ lateSteps, ∀ v, field patch s.guard.field.key=some v →
      ∃ r, s.guard.field.read v=.ok r := fun s hs => hr _ (guard_of_mem_steps hs).1
  obtain ⟨a,ha⟩ := steps_total (p := ⟨w,[]⟩) fun s hs => hread s (List.mem_append_left _ hs)
  obtain ⟨b,hb⟩ := steps_total (p := ⟨keepWatched a.next,a.errors⟩) fun s hs =>
    hread s (List.mem_append_right _ hs)
  rw [applyWorkflowPatch_eq]
  exact ⟨_,bind_ok.mpr ⟨a,ha,bind_ok.mpr ⟨b,hb,rfl⟩⟩⟩

/-- The patch without a key. -/
def without (key : String) (patch : Patch) : Patch := patch.filter fun f => f.1 ≠ key

theorem field_without (key k : String) (patch : Patch) :
    field (without key patch) k=if k=key then none else field patch k := by
  unfold field without
  induction patch with
  | nil => split <;> rfl
  | cons f patch ih =>
    obtain ⟨l,v⟩ := f
    by_cases hl : l=key
    · rw [List.filter_cons_of_neg (by simpa using hl),ih]
      by_cases hk : k=key
      · rw [if_pos hk,if_pos hk]
      · have hkl : (k==l)=false := beq_false_of_ne fun he => hk (he.trans hl)
        rw [if_neg hk,if_neg hk,List.lookup_cons,hkl]
    · rw [List.filter_cons_of_pos (by simpa using hl),List.lookup_cons,List.lookup_cons,ih]
      by_cases hk : k=key
      · subst hk
        rw [beq_false_of_ne (Ne.symm hl),if_pos rfl]
      · simp [hk]

/-- Without a key whose value is refused, the patch does the same. -/
theorem Step.without {key : String} (hs : s ∈ earlySteps ++ lateSteps)
    (hr : ∀ g ∈ guards, g.field.key=key → ∀ v, field patch key=some v → ∃ e, g.field.read v=.ok ([e],none))
    (p' : Patching) (hp : p.next=p'.next) (h : Step.run patch p s=.ok q) :
    ∃ q', Step.run (without key patch) p' s=.ok q' ∧ q.next=q'.next := by
  have hmem := (guard_of_mem_steps hs).1
  by_cases hk : s.guard.field.key=key
  · refine ⟨p',?_,?_⟩
    · unfold Step.run
      rw [field_without,if_pos hk]
    · obtain ⟨-,rfl⟩|⟨v,errors,value,hv,hread,-,hq⟩ := Step.run_ok h
      · exact hp
      · obtain ⟨e,he⟩ := hr _ hmem hk v (hk ▸ hv)
        cases he.symm.trans hread
        exact hq.trans hp
  · have hfield : field (Settings.without key patch) s.guard.field.key=field patch s.guard.field.key := by
      rw [field_without,if_neg hk]
    obtain ⟨hn,rfl⟩|⟨v,errors,value,hv,hread,-,hq⟩ := Step.run_ok h
    · refine ⟨p',?_,hp⟩
      unfold Step.run
      rw [hfield,hn]
    · refine ⟨⟨value.elim p'.next fun x =>
        s.settle (Function.update p'.next s.guard.field.key (x p'.next)),p'.errors++errors⟩,?_,?_⟩
      · unfold Step.run
        rw [hfield,hv]
        exact bind_ok.mpr ⟨_,hread,rfl⟩
      · rw [hq,hp]

theorem applied_without {key : String} (h : applyWorkflowPatch w patch now=.ok q)
    (hr : ∀ g ∈ guards, g.field.key=key → ∀ v, field patch key=some v → ∃ e, g.field.read v=.ok ([e],none)) :
    ∃ q', applyWorkflowPatch w (without key patch) now=.ok q' ∧ q'.next=q.next := by
  obtain ⟨a,b,ha,hb,rfl⟩ := applyWorkflowPatch_passes h
  have hgo : ∀ ss ⊆ earlySteps ++ lateSteps, ∀ p q p' : Patching, p.next=p'.next →
      ss.foldlM (Step.run patch) p=.ok q →
      ∃ q', ss.foldlM (Step.run (without key patch)) p'=.ok q' ∧ q.next=q'.next := fun ss hss p q p' hp h =>
    foldlM_lockstep (R := fun p p' : Patching => p.next=p'.next) h hp fun s hs p p' c hp hrun =>
      Step.without (hss hs) hr p' hp hrun
  obtain ⟨a',ha',hna⟩ := hgo _ (List.subset_append_left _ _) _ _ ⟨w,[]⟩ rfl ha
  obtain ⟨b',hb',hnb⟩ := hgo _ (List.subset_append_right _ _) _ _ ⟨keepWatched a'.next,a'.errors⟩
    (congrArg keepWatched hna) hb
  refine ⟨⟨Function.update b'.next "updated_at" (rational now),b'.errors⟩,?_,?_⟩
  · rw [applyWorkflowPatch_eq]
    exact bind_ok.mpr ⟨a',ha',bind_ok.mpr ⟨b',hb',rfl⟩⟩
  · dsimp only
    rw [hnb]

theorem cut_off {k : String} (hk : k ≠ "watchlist") (w : Workflow) : cut w k=w k := by
  obtain h|⟨x,h⟩ := cut_cases w
  · rw [h]
  · rw [h,Function.update_of_ne hk]

theorem Step.off {k : String} (hs : s ∈ earlySteps ++ lateSteps) (h : Step.run patch p s=.ok q)
    (hk : field patch k=none) (hl : k ≠ "watchlist") : q.next k=p.next k := by
  obtain ⟨-,rfl⟩|⟨v,errors,value,hv,-,-,hq⟩ := Step.run_ok h
  · rfl
  · have hne : k ≠ s.guard.field.key := fun he => by
      rw [he,hv] at hk
      cases hk
    rw [hq]
    cases value with
    | none => rfl
    | some x =>
      have hput : Function.update p.next s.guard.field.key (x p.next) k=p.next k :=
        Function.update_of_ne hne _ _
      rcases (guard_of_mem_steps hs).2 with rfl|⟨hid,-⟩
      · exact (cut_off hl _).trans hput
      · dsimp only [Option.elim]
        rw [hid]
        exact hput

/-- A key that the patch does not name keeps its value. -/
theorem applied_off {k : String} (h : applyWorkflowPatch w patch now=.ok q) (hk : field patch k=none)
    (hl : k ∉ ["watchlist","watch_only","updated_at"]) : q.next k=w k := by
  obtain ⟨a,b,ha,hb,rfl⟩ := applyWorkflowPatch_passes h
  simp only [List.mem_cons,List.not_mem_nil,or_false,not_or] at hl
  have hgo : ∀ ss ⊆ earlySteps ++ lateSteps, ∀ p q : Patching, ss.foldlM (Step.run patch) p=.ok q →
      q.next k=p.next k := fun ss hss p q h =>
    foldlM_invariant (I := fun q : Patching => q.next k=p.next k) h rfl fun s hs b c hI hrun =>
      (Step.off (hss hs) hrun hk hl.1).trans hI
  calc Function.update b.next "updated_at" (rational now) k
    _ = b.next k := Function.update_of_ne hl.2.2 _ _
    _ = keepWatched a.next k := hgo _ (List.subset_append_right _ _) _ _ hb
    _ = a.next k := keepWatched_off hl.2.1
    _ = w k := hgo _ (List.subset_append_left _ _) _ _ ha

/-- The value of the key has no effect but an error that names the key. -/
def Refuses (w : Workflow) (patch : Patch) (now : ℕ) (key : String) (q : Patching) : Prop :=
  (∃ e ∈ q.errors, Names key e) ∧
  (∃ q', applyWorkflowPatch w (without key patch) now=.ok q' ∧ q'.next=q.next) ∧
  (key ∉ ["watchlist","watch_only"] → q.next key=w key)

/-- The patch ends within the bounds and refuses the values that are not of their key's type. -/
def Enforced (w : Workflow) (patch : Patch) (now : ℕ) : Prop := ∃ q, applyWorkflowPatch w patch now=.ok q ∧
  InBounds q.next ∧ ∀ g ∈ guards, ∀ v, field patch g.field.key=some v → ¬g.typed v →
    Refuses w patch now g.field.key q

/-- The bounds are enforced unless a value of a wrong type is converted to one that its key takes, or
throws. -/
theorem enforced_iff (hw : InBounds w) : Enforced w patch now ↔
    ∀ g ∈ guards, ∀ v, field patch g.field.key=some v → ¬g.typed v → ¬g.slips v := by
  constructor
  · rintro ⟨q,h,-,hall⟩ g hg v hv ht hs
    obtain ⟨e,he,hnames⟩ := (hall g hg v hv ht).1
    obtain ⟨g',hg',v',errors,value,hv',hr,hmem⟩ := told_of_applied h e he
    have hsound := guards_sound g hg
    have hsound' := guards_sound g' hg'
    obtain rfl := guard_eq hg hg' (hnames.unique hsound.word hsound'.word (hsound'.names _ _ _ hr e hmem))
    cases hv.symm.trans hv'
    rw [hsound.slips v errors value ht hs hr] at hmem
    cases hmem
  · intro hall
    have hread : ∀ g ∈ guards, ∀ v, field patch g.field.key=some v → ∃ r, g.field.read v=.ok r := by
      intro g hg v hv
      by_cases ht : g.typed v
      · exact (guards_sound g hg).total v ht
      · obtain ⟨e,he⟩ := (guards_sound g hg).refuses v ht (hall g hg v hv ht)
        exact ⟨_,he⟩
    obtain ⟨q,h⟩ := applied_of_read w now hread
    refine ⟨q,h,hw.applied h,fun g hg v hv ht => ?_⟩
    obtain ⟨e,he⟩ := (guards_sound g hg).refuses v ht (hall g hg v hv ht)
    have hwithout : ∃ q', applyWorkflowPatch w (without g.field.key patch) now=.ok q' ∧ q'.next=q.next := by
      refine applied_without h fun g' hg' hkey v' hv' => ?_
      obtain rfl := guard_eq hg' hg hkey
      cases hv.symm.trans hv'
      exact ⟨e,he⟩
    refine ⟨?_,hwithout,fun hkey => ?_⟩
    · obtain ⟨errors,value,hr,hsub⟩ := read_of_applied h hg hv
      cases he.symm.trans hr
      exact ⟨e,hsub List.mem_cons_self,(guards_sound g hg).names v _ _ he e List.mem_cons_self⟩
    · obtain ⟨q',h',hnext⟩ := hwithout
      rw [← hnext]
      refine applied_off h' (by rw [field_without,if_pos rfl]) ?_
      have hstamp := not_stamp g hg
      simp only [List.mem_cons,List.not_mem_nil,or_false,not_or] at hkey ⊢
      exact ⟨hkey.1,hkey.2,hstamp⟩

end

/-- A workflow within its bounds. -/
def sample : Workflow := fun key => (field [("watchlist",.arr [.str "BTCUSDT",.str "ETHUSDT"]),
  ("watchlist_max",rational 60),("watch_only",.arr []),("timeframe",.str "15m"),
  ("info_every_ms",rational 1800000),("risk_pct",.str "0.5"),("leverage",rational 3),
  ("margin_mode",.str "cross"),("max_open_threads",rational 3),("max_opens_per_day",rational 4),
  ("daily_loss_stop_pct",.str "3"),("auto_approve",.bool true),("brain",.str "stub"),
  ("cheap_brain",.str "stub"),("playbook_text",.str ""),("invalidation_confirm_bars",rational 2),
  ("invalidation_buffer_atr",rational (1/5)),("screener_short_every_ms",rational 43200000),
  ("screener_swing_every_ms",rational 259200000),("screener_max_symbols",rational 60),
  ("screener_universe",.str "top_volume"),("screener_apply",.str "propose"),
  ("scan_mode",.str "triggered"),("heartbeat_every_ms",rational 1800000),("fast_move_pct",.str "0.8"),
  ("execution",.str "paper"),("exec_agent_cli",.str "claude"),("active_strategies",.arr []),
  ("daily_judgment_cap",rational 300)] key).getD .null

theorem sample_goods : Goods sample := by
  have hfirst : ∀ g ∈ firstGuards, g.good (sample g.field.key) := by
    simp only [firstGuards,List.forall_mem_cons]
    exact ⟨
      trivial,⟨"15m",by decide,rfl⟩,⟨1800000,rfl,by norm_num,by norm_num⟩,
      ⟨1/2,by decide +kernel,by norm_num,by norm_num⟩,⟨3,rfl,by norm_num,by norm_num⟩,
      ⟨"cross",by decide,rfl⟩,⟨3,rfl,by norm_num,by norm_num⟩,⟨4,rfl,by norm_num,by norm_num⟩,
      ⟨3,by decide +kernel,by norm_num,by norm_num⟩,trivial,⟨"stub",by decide,rfl⟩,⟨"stub",by decide,rfl⟩,
      trivial,trivial,⟨"",rfl,by decide⟩,⟨2,rfl,by norm_num,by norm_num⟩,⟨1/5,rfl,by norm_num,by norm_num⟩,
      trivial,trivial,trivial,⟨43200000,rfl,by norm_num,by norm_num⟩,
      ⟨259200000,rfl,by norm_num,by norm_num⟩,⟨60,rfl,by norm_num,by norm_num⟩,⟨"top_volume",by decide,rfl⟩,
      ⟨"propose",by decide,rfl⟩,trivial,trivial,List.forall_mem_nil _⟩
  have hlast : ∀ g ∈ lastGuards, g.good (sample g.field.key) := by
    simp only [lastGuards,List.forall_mem_cons]
    exact ⟨
      trivial,trivial,trivial,⟨"triggered",by decide,rfl⟩,⟨1800000,rfl,by norm_num,by norm_num⟩,
      ⟨4/5,by decide +kernel,by norm_num,by norm_num⟩,trivial,⟨"paper",by decide,rfl⟩,
      ⟨"claude",by decide,rfl⟩,trivial,⟨[],rfl,by decide⟩,⟨300,rfl,by norm_num,by norm_num⟩,
      List.forall_mem_nil _,List.forall_mem_nil _⟩
  intro g hg
  rcases List.mem_append.mp hg with hg|hg
  · rcases List.mem_append.mp hg with hg|hg
    · exact hfirst g hg
    · rcases List.mem_pair.mp hg with rfl|rfl
      · exact ⟨60,rfl,by norm_num,by norm_num⟩
      · trivial
  · exact hlast g hg

theorem sample_inBounds : InBounds sample :=
  ⟨sample_goods,⟨["BTCUSDT","ETHUSDT"],60,rfl,rfl,by decide,by decide,by norm_num⟩,by rintro s ⟨⟩⟩

/-- A cap that is null becomes zero, which is no cap, without an error. -/
theorem null_cap_unlimited : (∃ q, applyWorkflowPatch sample [("daily_judgment_cap",.null)] 0=.ok q ∧
    q.errors=[] ∧ q.next "daily_judgment_cap"=rational 0) ∧
    ¬Enforced sample [("daily_judgment_cap",.null)] 0 := by
  have hrun : ∃ q, applyWorkflowPatch sample [("daily_judgment_cap",.null)] 0=.ok q ∧ q.errors=[] ∧
      q.next "daily_judgment_cap"=rational 0 := ⟨_,rfl,rfl,by decide +kernel⟩
  refine ⟨hrun,?_⟩
  obtain ⟨q,hq,he,-⟩ := hrun
  rintro ⟨q',hq',-,hall⟩
  cases hq.symm.trans hq'
  have hmem : clampedGuard dailyJudgmentCap 0 5000 ∈ guards := by simp [guards,lastGuards]
  obtain ⟨⟨e,hmem,-⟩,-⟩ := hall _ hmem .null rfl id
  rw [he] at hmem
  cases hmem

/-- A number of bars that is null is refused: it is read as zero, which is too few. -/
theorem null_bars_refused : Enforced sample [("invalidation_confirm_bars",.null)] 0 := by
  refine (enforced_iff sample_inBounds).mpr fun g hg v hv _ hs => ?_
  have hkey : g.field.key="invalidation_confirm_bars" := by
    by_contra hne
    rw [field,List.lookup_cons,beq_false_of_ne hne] at hv
    cases hv
  obtain rfl : g=wholeGuard "invalidation_confirm_bars" 1 5 := guard_eq hg (by simp [guards,firstGuards]) hkey
  obtain rfl : Value.null=v := Option.some.inj hv
  obtain hn|⟨q,hq,-,hle,-⟩ := hs
  · cases hn
  · cases hq
    norm_num at hle

end TradeGate.Settings
