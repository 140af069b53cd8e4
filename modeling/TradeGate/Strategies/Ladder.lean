import Mathlib.Data.List.Destutter
import TradeGate.Strategies.Retirement

/-! How a version comes to be used live: from its first status one step at a time, with evidence at two
of the steps, and with the content it was written with. -/
namespace TradeGate.Strategies
open Keyed Js

/-- At least twenty trades, in the forward test or in the last replay. -/
def StrategySpec.tested (s : StrategySpec) : Prop :=
  (∃ lab n, s.labStats=some lab ∧ lab.n=some n ∧ 20 ≤ n) ∨ ∃ n, s.evalStats.trades=some n ∧ 20 ≤ n

/-- The last replay expects a gain. -/
def StrategySpec.profitable (s : StrategySpec) : Prop := ∃ r, s.evalStats.expectancyR=some r ∧ 0<r

/-- One step forward, with the evidence that the step asks for. -/
structure Advances (s : StrategySpec) (target : StrategyStatus) : Prop where
  not_retired : s.status ≠ .retired
  next : target.index=s.status.index+1
  tested : target=.shadow → s.tested
  profitable : target=.paper → s.profitable

/-- What one write of a version may differ in from the write before. -/
structure Follows (old new : StrategySpec) : Prop where
  content : new.toContent=old.toContent
  hash : new.contentHash=old.contentHash
  status : new.status=old.status ∨ new.status=.retired ∨ Advances old new.status

/-- A first status of a version: a draft, or what a strategy that the program comes with starts at. -/
def StrategySpec.starts (s : StrategySpec) (start : StrategyStatus) : Prop :=
  start=.draft ∨ s.version=1 ∧ ∃ b ∈ builtinDefs, b.id=s.id ∧ b.status=start

theorem tested_of_gate {s : StrategySpec} (h : Library.shadowGate s=none) : s.tested := by
  have hTwenty {x : Option ℚ} (hx : 20 ≤ x.getD 0) : ∃ n, x=some n ∧ 20 ≤ n := by
    cases x with
    | none => exact absurd hx (by norm_num)
    | some n => exact ⟨n,rfl,hx⟩
  unfold Library.shadowGate at h
  split at h
  next hlab =>
    obtain ⟨lab,hs,hok⟩ := (Option.any_eq_true _ _).mp hlab
    obtain ⟨n,hn,h20⟩ := hTwenty (of_decide_eq_true hok).1
    exact .inl ⟨lab,n,hs,hn,h20⟩
  · split at h
    · cases h
    · split at h
      · cases h
      next htrades => exact .inr (hTwenty (not_lt.mp htrades))

theorem profitable_of_gate {s : StrategySpec} (h : Library.paperGate s=none) : s.profitable := by
  unfold Library.paperGate at h
  split at h
  · cases h
  next r hr =>
    split at h
    · cases h
    next hpos => exact ⟨r,hr,not_le.mp hpos⟩

theorem advances_of_gate {s : StrategySpec} {target : StrategyStatus} {confirm : Bool}
    (h : Library.promoteGate s target confirm=none) : Advances s target := by
  obtain ⟨hretired,hnext,hshadow,hpaper⟩ := Library.promoteGate_eq_none h
  exact ⟨hretired,hnext,fun h => tested_of_gate (hshadow h),fun h => profitable_of_gate (hpaper h)⟩

/-- The statuses from one to another along the line, the last one first. -/
def climb (start s : StrategyStatus) : List StrategyStatus :=
  (statusOrder.filter fun x => start.index ≤ x.index ∧ x.index ≤ s.index).reverse

theorem climb_self {s : StrategyStatus} (h : s ≠ .retired) : climb s s=[s] := by
  cases s with
  | retired => exact absurd rfl h
  | _ => decide

/-- One more step of the line. -/
theorem climb_next {start s next : StrategyStatus} (h : s ≠ .retired) (hs : start.index ≤ s.index)
    (hnext : next.index=s.index+1) : climb start next=next::climb start s := by
  revert h hs hnext
  cases start <;> cases s <;> cases next <;> decide

theorem builtin_ids {b c : BuiltIn} (hb : b ∈ builtinDefs) (hc : c ∈ builtinDefs) (h : b.id=c.id) :
    b=c := List.inj_on_of_nodup_map (f := BuiltIn.id) (by decide) hb hc h

theorem builtin_status : ∀ b ∈ builtinDefs, b.status=.paper ∨ b.status=.backtest := by decide

/-- With every parameter of the strategy the program comes with. -/
def StrategySpec.complete (s : StrategySpec) : Prop :=
  ∀ b ∈ builtinDefs, b.id=s.id → ∀ k, (b.params.get k).isSome → (s.params.get k).isSome

namespace Library

variable {t t' : Library} {s v : StrategySpec} {id : String} {n : ℕ}

/-- The writes of a version, the last one first. -/
def past (t : Library) (id : String) (n : ℕ) : List StrategySpec := t.written.filter fun s => s.key=(id,n)

/-- The statuses a version has had, the last one first. -/
def steps (t : Library) (id : String) (n : ℕ) : List StrategyStatus :=
  ((t.past id n).map StrategySpec.status).destutter (· ≠ ·)

theorem past_write : (t.write s).past id n=if s.key=(id,n) then s::t.past id n else t.past id n := by
  rw [past,write,List.filter_cons]
  simp [past]

section
variable [Host] {T : StrategyStatus → Prop}

/-- A row as it should be. -/
structure Whole (s : StrategySpec) : Prop where
  hash : s.contentHash=strategyContentHash s.toContent
  complete : s.complete

structure Sound (t : Library) : Prop where
  newest : ∀ id n, t.version id n=(t.past id n).head?
  whole : ∀ id n s, t.version id n=some s → Whole s
  chain : ∀ id n, (t.past id n).IsChain fun new old => Follows old new
  climbed : ∀ id n s, t.version id n=some s → s.status ≠ .retired → ∃ start, s.starts start ∧
    start.index ≤ s.status.index ∧ t.steps id n=climb start s.status

/-- A write is of a new version, in a first status, or follows what is there. -/
theorem Sound.change (h : Sound t) (hs : Change T t s) : Whole s ∧
    (t.version s.id s.version=none ∧ s.starts s.status ∨
      ∃ old, t.version s.id s.version=some old ∧ Follows old s) := by
  have again {old s : StrategySpec} (hold : t.version s.id s.version=some old)
      (hfollows : Follows old s) : Whole s ∧
        (t.version s.id s.version=none ∧ s.starts s.status ∨
          ∃ old, t.version s.id s.version=some old ∧ Follows old s) := by
    obtain ⟨hhash,hcomplete⟩ := h.whole _ _ _ hold
    have hid := (version_eq_some.mp hold).2.1
    refine ⟨⟨by rw [hfollows.hash,hhash,hfollows.content],fun b hb hbs k hk => ?_⟩,.inr ⟨old,hold,hfollows⟩⟩
    rw [hfollows.content]
    exact hcomplete b hb (hbs.trans hid.symm) k hk
  cases hs with
  | seeded b now hb hnew =>
    refine ⟨⟨rfl,fun c hc hid k hk => ?_⟩,.inl ⟨hnew,.inr ⟨rfl,b,hb,rfl,rfl⟩⟩⟩
    rw [builtin_ids hc hb hid] at hk
    exact hk
  | filled b stored _ hb hstored hmissing =>
    -- nothing is missing
    obtain ⟨q,hq,hnone⟩ := hmissing
    have hhas : (b.params.get q.1).isSome := by
      rw [Map.get,show b.params.lookup q.1=some q from Table.lookup_of_mem hq]
      rfl
    have := (h.whole _ _ _ hstored).complete b hb (version_eq_some.mp hstored).2.1.symm q.1 hhas
    simp [hnone] at this
  | created head _ hhead hid hversion hdraft hhash hparams =>
    obtain ⟨hself,-,-⟩ := head_eq_some hhead
    refine ⟨⟨hhash,fun b hb hbs k hk => hparams k ?_⟩,.inl ⟨?_,.inl hdraft⟩⟩
    · exact (h.whole _ _ _ hself).complete b hb (hbs.trans hid) k hk
    · by_contra hsome
      obtain ⟨r,hr⟩ := Option.ne_none_iff_exists'.mp hsome
      have := version_le_head hhead (hid ▸ hr)
      omega
  | moved head target confirm _ hhead hgate =>
    exact again (head_eq_some hhead).1 ⟨rfl,rfl,.inr (.inr (advances_of_gate hgate))⟩
  | retired head hhead => exact again (head_eq_some hhead).1 ⟨rfl,rfl,.inr (.inl rfl)⟩
  | tested s lab hs => exact again hs ⟨rfl,rfl,.inl rfl⟩
  | replayed head stats hhead => exact again (head_eq_some hhead).1 ⟨rfl,rfl,.inl rfl⟩

theorem Sound.write (h : Sound t) (hs : Change T t s) : Sound (t.write s) := by
  obtain ⟨hwhole,hcase⟩ := h.change hs
  have hpast : t.past s.id s.version=[] ∧ s.starts s.status ∨
      ∃ old rest, t.past s.id s.version=old::rest ∧ t.version s.id s.version=some old ∧ Follows old s := by
    have hnewest := h.newest s.id s.version
    cases hcase with
    | inl hnew =>
      rw [hnew.1] at hnewest
      exact .inl ⟨List.head?_eq_none_iff.mp hnewest.symm,hnew.2⟩
    | inr hold =>
      obtain ⟨old,hold,hfollows⟩ := hold
      rw [hold] at hnewest
      obtain ⟨rest,hrest⟩ := List.head?_eq_some_iff.mp hnewest.symm
      exact .inr ⟨old,rest,hrest,hold,hfollows⟩
  constructor
  case newest =>
    intro id n
    rw [version_write,past_write]
    split
    · rfl
    · exact h.newest id n
  case whole =>
    intro id n r hr
    rw [version_write] at hr
    split at hr
    · cases hr
      exact hwhole
    · exact h.whole id n r hr
  case chain =>
    intro id n
    rw [past_write]
    split
    next hkey =>
      obtain ⟨rfl,rfl⟩ := Prod.ext_iff.mp hkey
      have hchain := h.chain s.id s.version
      rcases hpast with ⟨hnil,-⟩|⟨old,rest,hcons,-,hfollows⟩
      · show (s::t.past s.id s.version).IsChain _
        rw [hnil]
        exact .singleton s
      · show (s::t.past s.id s.version).IsChain _
        rw [hcons] at hchain ⊢
        exact .cons_cons hfollows hchain
    · exact h.chain id n
  case climbed =>
    intro id n r hr hretired
    rw [version_write] at hr
    rw [steps,past_write]
    split at hr
    next hkey =>
      obtain ⟨rfl,rfl⟩ := Prod.ext_iff.mp hkey
      cases hr
      rw [if_pos hkey]
      show ∃ start, s.starts start ∧ start.index ≤ s.status.index ∧
        ((s::t.past s.id s.version).map StrategySpec.status).destutter (· ≠ ·)=climb start s.status
      rcases hpast with ⟨hnil,hstarts⟩|⟨old,rest,hcons,hold,hfollows⟩
      · refine ⟨s.status,hstarts,le_rfl,?_⟩
        rw [hnil,climb_self hretired]
        rfl
      · obtain ⟨-,hid,hversion⟩ := version_eq_some.mp hold
        have holdretired : old.status ≠ .retired := by
          rcases hfollows.status with hsame|hr|hadv
          · exact hsame ▸ hretired
          · exact absurd hr hretired
          · exact hadv.not_retired
        obtain ⟨start,hstart,hle,hsteps⟩ := h.climbed s.id s.version old hold holdretired
        have hstart' : s.starts start := by
          rwa [StrategySpec.starts,hid,hversion] at hstart
        rw [steps,hcons,List.map_cons] at hsteps
        rw [hcons,List.map_cons,List.map_cons,List.destutter_cons_cons]
        rcases hfollows.status with hsame|hr|hadv
        · refine ⟨start,hstart',hsame ▸ hle,?_⟩
          rw [if_neg (by simp [hsame]),hsame]
          exact hsteps
        · exact absurd hr hretired
        · have hne : s.status ≠ old.status := by
            intro heq
            have := hadv.next
            rw [heq] at this
            omega
          refine ⟨start,hstart',by rw [hadv.next]; omega,?_⟩
          rw [if_pos hne,climb_next holdretired hle hadv.next,← hsteps]
          rfl
    next hkey =>
      rw [if_neg hkey]
      exact h.climbed id n r hr hretired

theorem sound_empty : Sound empty where
  newest _ _ := rfl
  whole _ _ _ h := by cases h
  chain _ _ := .nil
  climbed _ _ _ h := by cases h

theorem run_sound (ops : List Op) : Sound (run .empty ops) :=
  run_invariant (fun _ _ h hs => h.write hs) sound_empty ops

/-- A version there is stays there with its content and its hash. -/
theorem Sound.kept (h : Sound t) (hv : t.version id n=some s) (later : List Op) :
    ∃ s', (t.run later).version id n=some s' ∧ s'.toContent=s.toContent ∧ s'.contentHash=s.contentHash := by
  have keep := run_invariant (I := fun u => Sound u ∧ ∃ s', u.version id n=some s' ∧
    s'.toContent=s.toContent ∧ s'.contentHash=s.contentHash) ?_ ⟨h,s,hv,rfl,rfl⟩ later
  · exact keep.2
  · rintro u r ⟨hu,s',hs',hcontent,hhash⟩ hr
    refine ⟨hu.write hr,?_⟩
    rw [version_write]
    split
    next hkey =>
      obtain ⟨rfl,rfl⟩ := Prod.ext_iff.mp hkey
      rcases (hu.change hr).2 with ⟨hnew,-⟩|⟨old,hold,hfollows⟩
      · cases hnew.symm.trans hs'
      · cases hold.symm.trans hs'
        exact ⟨r,rfl,hfollows.content.trans hcontent,hfollows.hash.trans hhash⟩
    · exact ⟨s',hs',hcontent,hhash⟩

/-- A version that has gone from a draft, or from where a strategy the program comes with starts, to
paper step by step. -/
def Earned (t : Library) (v : StrategySpec) : Prop :=
  [.paper,.shadow,.backtest,.draft] <:+ t.steps v.id v.version ∨
    v.version=1 ∧ ∃ b ∈ builtinDefs, b.id=v.id ∧
      (b.status=.paper ∧ [.paper] <:+ t.steps v.id v.version ∨
        b.status=.backtest ∧ [.paper,.shadow,.backtest] <:+ t.steps v.id v.version)

theorem Sound.earned (h : Sound t) (hv : t.version v.id v.version=some v) (hlive : v.live) :
    Earned t v := by
  obtain ⟨start,hstart,-,hsteps⟩ := h.climbed _ _ v hv hlive.1
  rw [Earned,hsteps]
  have hstatus : v.status=.paper ∨ v.status=.liveCapped :=
    or_iff_not_imp_left.mpr fun hp => StrategyStatus.eq_liveCapped hp hlive.1 hlive.2
  rcases hstart with rfl|⟨hone,b,hb,hid,rfl⟩
  · left
    rcases hstatus with hs|hs <;> rw [hs] <;> decide
  · refine .inr ⟨hone,b,hb,hid,?_⟩
    rcases builtin_status b hb with hb|hb
    · refine .inl ⟨hb,?_⟩
      rw [hb]
      rcases hstatus with hs|hs <;> rw [hs] <;> decide
    · refine .inr ⟨hb,?_⟩
      rw [hb]
      rcases hstatus with hs|hs <;> rw [hs] <;> decide

/-- After any operations on an empty library: what live judgments take has earned it; the rows are the
last ones written and every write follows the one before; and a version keeps its content and the
hash of that. -/
theorem library_sound (ops : List Op) :
    (∀ ids, ∀ v ∈ ((run .empty ops).resolve ids).specs, Earned (run .empty ops) v) ∧
    (∀ id n, (run .empty ops).version id n=((run .empty ops).past id n).head? ∧
      ((run .empty ops).past id n).IsChain fun new old => Follows old new) ∧
    ∀ later id n s, (run .empty ops).version id n=some s →
      s.contentHash=strategyContentHash s.toContent ∧
        ∃ s', (run .empty (ops ++ later)).version id n=some s' ∧ s'.toContent=s.toContent ∧
          s'.contentHash=s.contentHash := by
  have h := run_sound ops
  refine ⟨fun ids v hv => ?_,fun id n => ⟨h.newest id n,h.chain id n⟩,fun later id n s hs => ?_⟩
  · obtain ⟨-,hversion,hlive⟩ := live_of_resolve hv
    exact h.earned hversion hlive
  · rw [run,Machine.run,List.foldl_append]
    exact ⟨(h.whole id n s hs).hash,h.kept hs later⟩

end

/-- A strategy that starts at backtest is replayed and promoted twice. -/
example :
    let _ := wholeDigest
    let t := run .empty [.seed 0,.updateEvalStats "mtf_alignment" (some 24) (some 0.42),
      .promote "mtf_alignment" .shadow false,.promote "mtf_alignment" .paper false]
    (t.resolve ["mtf_alignment"]).specs.map StrategySpec.version=[1] ∧
      t.steps "mtf_alignment" 1=[.paper,.shadow,.backtest] := by
  decide +kernel

end Library
end TradeGate.Strategies
