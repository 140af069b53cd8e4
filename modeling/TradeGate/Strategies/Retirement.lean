import TradeGate.Strategies.Writes

/-! What a retirement ends.  It marks the newest version only; an older version that is still at paper
is used again as soon as there is a new draft. -/
namespace TradeGate.Strategies
open Keyed Js

/-- A status with which a version is used in live judgments. -/
def StrategySpec.live (s : StrategySpec) : Prop :=
  s.status ≠ .retired ∧ StrategyStatus.paper.index ≤ s.status.index

instance (s : StrategySpec) : Decidable s.live := inferInstanceAs (Decidable (_ ∧ _))

theorem StrategySpec.live_congr {s r : StrategySpec} (h : s.status=r.status) : s.live ↔ r.live := by
  rw [live,live,h]

theorem StrategyStatus.eq_liveCapped {s : StrategyStatus} (hpaper : s ≠ .paper) (h : s ≠ .retired)
    (hs : StrategyStatus.paper.index ≤ s.index) : s=.liveCapped := by
  cases s with
  | draft => exact absurd hs (by decide)
  | backtest => exact absurd hs (by decide)
  | shadow => exact absurd hs (by decide)
  | paper => exact absurd rfl hpaper
  | liveCapped => rfl
  | retired => exact absurd rfl h

namespace Library

variable {t t' : Library} {s v head : StrategySpec} {id : String} {n m : ℕ}

theorem resolveOne_live (h : t.resolveOne false id=.ok v) : v ∈ t.versions id ∧ v.live := by
  unfold resolveOne at h
  split at h
  · cases h
  next s hs =>
    split at h
    · cases h
    next hretired =>
      split at h
      · split at h
        · cases h
        next fallback hfound =>
          cases h
          have hlive := List.find?_some hfound
          exact ⟨List.mem_of_find?_eq_some hfound,of_decide_eq_true hlive⟩
      next hbelow =>
        cases h
        obtain ⟨hv,hid,-⟩ := head_eq_some hs
        obtain ⟨hmem,-,-⟩ := version_eq_some.mp hv
        refine ⟨mem_versions.mpr ⟨hmem,hid⟩,hretired,?_⟩
        simpa using hbelow

theorem mem_resolve {ids : List String} {allow : Bool} :
    v ∈ (t.resolve ids allow).specs ↔ ∃ id ∈ ids, t.resolveOne allow id=.ok v := by
  simp only [resolve,List.mem_filterMap,List.mem_eraseDups]
  refine exists_congr fun id => and_congr_right fun _ => ?_
  cases t.resolveOne allow id <;> simp

/-- What live judgments take from the library are its live versions. -/
theorem live_of_resolve {ids : List String} (h : v ∈ (t.resolve ids).specs) :
    v.id ∈ ids ∧ t.version v.id v.version=some v ∧ v.live := by
  obtain ⟨id,hid,hv⟩ := mem_resolve.mp h
  obtain ⟨hmem,hlive⟩ := resolveOne_live hv
  obtain ⟨hrow,rfl⟩ := mem_versions.mp hmem
  exact ⟨hid,version_eq_some.mpr ⟨hrow,rfl,rfl⟩,hlive⟩

theorem version_write_ne_none (h : t.version id n ≠ none) : (t.write s).version id n ≠ none := by
  rw [version_write]
  split
  · exact Option.some_ne_none s
  · exact h

/-- Every strategy that has a version has its first one. -/
def Rooted (t : Library) : Prop := ∀ id n, t.version id n ≠ none → t.version id 1 ≠ none

/-- Retired with version n, and no earlier version live. -/
structure Withdrawn (t : Library) (id : String) (n : ℕ) : Prop where
  rooted : t.version id 1 ≠ none
  last : ∃ s, t.version id n=some s ∧ s.status=.retired
  none_live : ∀ s, t.version id s.version=some s → s.version ≤ n → ¬s.live

/-- A retirement leaves the version it marks the newest. -/
theorem le_of_retire (h : t.retire id=.ok (s,t')) (hn : t'.version id n ≠ none) : n ≤ s.version := by
  obtain ⟨head,hhead,⟨-,rfl,rfl⟩|⟨rfl,rfl⟩⟩ := retire_eq_ok h
  · obtain ⟨v,hv⟩ := Option.ne_none_iff_exists'.mp hn
    exact version_le_head hhead hv
  · rw [version_write] at hn
    split at hn
    next hkey => exact (Prod.ext_iff.mp hkey).2.ge
    · obtain ⟨v,hv⟩ := Option.ne_none_iff_exists'.mp hn
      have hle := version_le_head hhead hv
      exact hle

/-- If no older version was live, a retirement withdraws the strategy. -/
theorem withdrawn_of_retire (hroot : Rooted t) (h : t.retire id=.ok (s,t'))
    (hold : ∀ v ∈ t.versions id, v.version<s.version → ¬v.live) : Withdrawn t' id s.version := by
  obtain ⟨head,hhead,hcase⟩ := retire_eq_ok h
  obtain ⟨hself,hid,hle⟩ := head_eq_some hhead
  have hone : t.version id 1 ≠ none := hroot id head.version (by simp [hself])
  rcases hcase with ⟨hretired,rfl,rfl⟩|⟨rfl,rfl⟩
  · refine ⟨hone,⟨s,hself,hretired⟩,fun v hv hn hlive => ?_⟩
    obtain hlt|heq := hn.lt_or_eq
    · obtain ⟨hmem,hvid,-⟩ := version_eq_some.mp hv
      exact hold v (mem_versions.mpr ⟨hmem,hvid⟩) hlt hlive
    · rw [heq,hself,Option.some.injEq] at hv
      exact hlive.1 (hv ▸ hretired)
  · dsimp only at hold ⊢
    refine ⟨version_write_ne_none hone,⟨_,version_write_self hid,rfl⟩,fun v hv hn hlive => ?_⟩
    rw [version_write] at hv
    split at hv
    · rw [Option.some.injEq] at hv
      exact hlive.1 (hv ▸ rfl)
    next hkey =>
      obtain hlt|heq := hn.lt_or_eq
      · obtain ⟨hmem,hvid,-⟩ := version_eq_some.mp hv
        exact hold v (mem_versions.mpr ⟨hmem,hvid⟩) hlt hlive
      · exact hkey (Prod.ext_iff.mpr ⟨hid,heq.symm⟩)

section
variable [Host] {T : StrategyStatus → Prop}

/-- A write is of a first version or of a strategy that has one. -/
theorem Change.known (h : Change T t s) : s.version=1 ∨ ∃ n, t.version s.id n ≠ none := by
  have some {n : ℕ} {r : StrategySpec} (hr : t.version s.id n=some r) : ∃ n, t.version s.id n ≠ none :=
    ⟨n,by simp [hr]⟩
  cases h with
  | seeded => exact .inl rfl
  | filled b stored _ _ hstored _ hkey _ =>
    obtain ⟨-,-,hversion⟩ := version_eq_some.mp hstored
    exact .inl ((congrArg Prod.snd hkey).trans hversion)
  | created head _ hhead hid => exact .inr (some (hid ▸ (head_eq_some hhead).1))
  | moved head _ _ _ hhead => exact .inr (some (head_eq_some hhead).1)
  | retired head hhead => exact .inr (some (head_eq_some hhead).1)
  | tested s _ hs => exact .inr (some hs)
  | replayed head _ hhead => exact .inr (some (head_eq_some hhead).1)

theorem Rooted.write (h : Rooted t) (hs : Change T t s) : Rooted (t.write s) := by
  intro id n hn
  by_cases hid : s.id=id
  · cases hs.known with
    | inl h1 =>
      have hself := version_write_self (t := t) hid
      rw [h1] at hself
      simp [hself]
    | inr hknown =>
      obtain ⟨m,hm⟩ := hknown
      exact version_write_ne_none (h id m (hid ▸ hm))
  · refine version_write_ne_none (h id n ?_)
    rwa [version_write,if_neg fun hkey => hid (congrArg Prod.fst hkey)] at hn

theorem run_rooted (ops : List Op) : Rooted (run .empty ops) :=
  run_invariant (I := Rooted) (fun _ _ h hs => h.write hs) (fun _ _ h => absurd rfl h) ops

/-- A write to a withdrawn version leaves its status or is another retirement. -/
theorem Withdrawn.status (h : Withdrawn t s.id n) (hs : Change T t s) (hn : s.version ≤ n) :
    s.status=.retired ∨ ∃ old, t.version s.id s.version=some old ∧ s.status=old.status := by
  obtain ⟨last,hlast,hretired⟩ := h.last
  cases hs with
  | seeded b now hb hnew => exact absurd hnew h.rooted
  | filled b stored _ hb hstored _ hkey hstatus =>
    obtain ⟨-,hid,hversion⟩ := version_eq_some.mp hstored
    have hk := Prod.ext_iff.mp hkey
    dsimp only [StrategySpec.key] at hk
    exact .inr ⟨stored,by rw [hk.1,hk.2,hid,hversion,hstored],hstatus⟩
  | created head _ hhead hid hversion =>
    have := version_le_head hhead (hid ▸ hlast)
    omega
  | moved head target confirm _ hhead hgate =>
    -- the head is the version that was retired
    obtain ⟨hself,-,-⟩ := head_eq_some hhead
    have heq : head.version=n := le_antisymm hn (version_le_head hhead hlast)
    dsimp only at hlast
    rw [← heq,hself,Option.some.injEq] at hlast
    exact absurd (hlast ▸ hretired) (promoteGate_eq_none hgate).1
  | retired head hhead => exact .inl rfl
  | tested s lab hs => exact .inr ⟨s,hs,rfl⟩
  | replayed head stats hhead => exact .inr ⟨head,(head_eq_some hhead).1,rfl⟩

theorem Withdrawn.write (h : Withdrawn t id n) (hs : Change T t s) : Withdrawn (t.write s) id n := by
  have hstatus : s.id=id → s.version ≤ n →
      s.status=.retired ∨ ∃ old, t.version s.id s.version=some old ∧ s.status=old.status :=
    fun hid => Withdrawn.status (hid ▸ h) hs
  obtain ⟨last,hlast,hretired⟩ := h.last
  refine ⟨version_write_ne_none h.rooted,?_,?_⟩
  · rw [version_write]
    split
    next hkey =>
      obtain ⟨rfl,rfl⟩ := Prod.ext_iff.mp hkey
      refine ⟨s,rfl,?_⟩
      cases hstatus rfl le_rfl with
      | inl hs => exact hs
      | inr hold =>
        obtain ⟨old,hold,heq⟩ := hold
        rw [show t.version s.id s.version=some last from hlast,Option.some.injEq] at hold
        rw [heq,← hold,hretired]
    · exact ⟨last,hlast,hretired⟩
  · intro r hr hn hlive
    rw [version_write] at hr
    split at hr
    next hkey =>
      obtain ⟨rfl,-⟩ := Prod.ext_iff.mp hkey
      rw [Option.some.injEq] at hr
      rw [← hr] at hn hlive
      cases hstatus rfl hn with
      | inl hs => exact hlive.1 hs
      | inr hold =>
        obtain ⟨old,hold,heq⟩ := hold
        have hversion := (version_eq_some.mp hold).2.2
        exact h.none_live old (by rw [hversion]; exact hold) (hversion ▸ hn)
          ((StrategySpec.live_congr heq).mp hlive)
    · exact h.none_live r hr hn hlive

theorem Withdrawn.run (h : Withdrawn t id n) (ops : List Op) : Withdrawn (t.run ops) id n :=
  run_invariant (I := fun t => Withdrawn t id n) (fun _ _ h hs => h.write hs) h ops

/-! Live versions come from promotions to paper. -/

/-- A write that is not a promotion to paper makes no version live but a first one. -/
theorem Change.live (h : Change T t s) (hT : ¬T .paper) (hs : s.live) (hn : s.version ≠ 1) :
    ∃ old, t.version s.id s.version=some old ∧ old.live := by
  cases h with
  | seeded => exact absurd rfl hn
  | filled b stored _ _ hstored _ hkey _ =>
    obtain ⟨-,-,hversion⟩ := version_eq_some.mp hstored
    exact absurd ((congrArg Prod.snd hkey).trans hversion) hn
  | created head _ _ _ _ hdraft =>
    rw [StrategySpec.live,hdraft] at hs
    exact absurd hs.2 (by decide)
  | moved head target confirm hTt hhead hgate =>
    obtain ⟨hretired,hnext,-,-⟩ := promoteGate_eq_none hgate
    refine ⟨head,(head_eq_some hhead).1,hretired,?_⟩
    -- the step to a live status other than paper starts at paper
    have hne : target ≠ .paper := fun h => hT (h ▸ hTt)
    have hcapped := StrategyStatus.eq_liveCapped hne hs.1 hs.2
    have hi : head.status.index=3 := by
      rw [hcapped,show StrategyStatus.liveCapped.index=4 by decide] at hnext
      omega
    rw [hi]
    decide
  | retired => exact absurd rfl hs.1
  | tested s lab h => exact ⟨s,h,hs⟩
  | replayed head stats hhead => exact ⟨head,(head_eq_some hhead).1,hs⟩

/-- A promotion of a version to paper that succeeds. -/
def PutsLive (t : Library) (op : Op) (id : String) (n : ℕ) : Prop :=
  ∃ confirm s t', op=.promote id .paper confirm ∧ t.promote id .paper confirm=.ok (s,t') ∧ s.version=n

/-- An operation makes a version live, other than a first one, by promoting it to paper. -/
theorem apply_live {op : Op} (hv : (t.apply op).version id n=some v) (hlive : v.live) (hn : n ≠ 1) :
    (∃ old, t.version id n=some old ∧ old.live) ∨ PutsLive t op id n := by
  by_cases hT : Op.targets op .paper
  · -- only `promote` goes there
    cases op with
    | promote id' target confirm =>
      obtain rfl : StrategyStatus.paper=target := hT
      change (t.after (t.promote id' .paper confirm)).version id n=some v at hv
      cases hp : t.promote id' .paper confirm with
      | error e =>
        rw [hp] at hv
        exact .inl ⟨v,hv,hlive⟩
      | ok r =>
        obtain ⟨head,hhead,-,hs,ht⟩ := promote_eq_ok hp
        obtain ⟨-,hid,-⟩ := head_eq_some hhead
        rw [hp,after,ht,version_write] at hv
        split at hv
        next hkey =>
          obtain ⟨hi,hn⟩ := Prod.ext_iff.mp hkey
          have hid' : id'=id := by
            rw [← hid]
            exact (congrArg StrategySpec.id hs).symm.trans hi
          exact .inr ⟨confirm,r.1,r.2,by rw [hid'],by rw [← hid',hp],hn⟩
        · exact .inl ⟨v,hv,hlive⟩
    | ensureBreakoutRetestV2 now => cases hT
    | seed now => cases hT
    | createVersion id patch now => cases hT
    | retire id => cases hT
    | updateLabStats id version stats => cases hT
    | updateEvalStats id trades expectancyR => cases hT
  · left
    have keep : ∀ v, (t.apply op).version id n=some v → v.live →
        ∃ old, t.version id n=some old ∧ old.live := by
      refine apply_invariant (I := fun u => ∀ v, u.version id n=some v → v.live →
        ∃ old, t.version id n=some old ∧ old.live) ?_ fun v hv hlive => ⟨v,hv,hlive⟩
      intro u s hu hs v hv hlive
      rw [version_write] at hv
      split at hv
      next hkey =>
        obtain ⟨hi,hj⟩ := Prod.ext_iff.mp hkey
        dsimp only [StrategySpec.key] at hi hj
        rw [Option.some.injEq] at hv
        obtain ⟨old,hold,holdlive⟩ := hs.live hT (hv ▸ hlive) (hj ▸ hn)
        exact hu old (hi ▸ hj ▸ hold) holdlive
      · exact hu v hv hlive
    exact keep v hv hlive

/-- A version that becomes live in a run is promoted to paper in it. -/
theorem run_live {ops : List Op} (hv : (t.run ops).version id n=some v) (hlive : v.live) (hn : n ≠ 1)
    (hold : ∀ old, t.version id n=some old → ¬old.live) :
    ∃ before op after, ops=before ++ op::after ∧ PutsLive (t.run before) op id n := by
  induction ops generalizing t with
  | nil => exact absurd hlive (hold v hv)
  | cons op ops ih =>
    by_cases hnext : ∀ old, (t.apply op).version id n=some old → ¬old.live
    · obtain ⟨before,op',after,rfl,h⟩ := ih hv hnext
      exact ⟨op::before,op',after,rfl,h⟩
    · push Not at hnext
      obtain ⟨old,hversion,holdlive⟩ := hnext
      cases apply_live hversion holdlive hn with
      | inl hbefore =>
        obtain ⟨r,hr,hrlive⟩ := hbefore
        exact absurd hrlive (hold r hr)
      | inr hput => exact ⟨[],op,ops,rfl,hput⟩

/-- A retirement, when no older version was live, ends the use of every version there is: what live
judgments take later was made and promoted to paper after it. -/
theorem retired_for_good (before after : List Op) {r : StrategySpec}
    (h : (run .empty before).retire id=.ok (r,t'))
    (hold : ∀ v ∈ (run .empty before).versions id, v.version<r.version → ¬v.live) :
    ∀ v ∈ ((t'.run after).resolve [id]).specs, v.id=id ∧ t'.version id v.version=none ∧
      ∃ first op rest, after=first ++ op::rest ∧ PutsLive (t'.run first) op id v.version := by
  intro v hv
  obtain ⟨hid,hversion,hlive⟩ := live_of_resolve hv
  obtain rfl := List.mem_singleton.mp hid
  have hw := withdrawn_of_retire (run_rooted before) h hold
  have hlt : r.version<v.version := by
    by_contra hle
    exact (hw.run after).none_live v hversion (not_lt.mp hle) hlive
  have hnew : t'.version v.id v.version=none := by
    by_contra hsome
    exact hlt.not_ge (le_of_retire h hsome)
  refine ⟨rfl,hnew,run_live hversion hlive (fun h1 => hw.rooted (h1 ▸ hnew)) ?_⟩
  intro old hsome
  simp [hnew] at hsome

end

/-- A digest that tells all contents apart. -/
@[reducible] def wholeDigest : Host where
  sha1Hex s := s
  sha256Hex s := s
  id := longerId
  id_fresh := longerId_fresh

/-- A second version is made and the strategy retired: nothing is used live.  A third version is made:
the first one, which was at paper all along, is used live. -/
theorem retired_version_back :
    let _ := wholeDigest
    let drafted := run .empty [.seed 0,.createVersion "breakout_retest" { name := some "v2" } 1]
    let withdrawn := drafted.run [.retire "breakout_retest"]
    let again := withdrawn.run [.createVersion "breakout_retest" { name := some "v3" } 2]
    (drafted.retire "breakout_retest").isOk ∧
      ((withdrawn.resolve ["breakout_retest"]).specs.map StrategySpec.version)=[] ∧
      (withdrawn.version "breakout_retest" 1).isSome ∧
      ((again.resolve ["breakout_retest"]).specs.map StrategySpec.version)=[1] := by
  decide +kernel

/-- The first version is retired: a second version does not bring it back. -/
theorem retired_first_for_good :
    let _ := wholeDigest
    ∃ r t', (run .empty [.seed 0]).retire "breakout_retest"=.ok (r,t') ∧
      ∀ v ∈ ((t'.run [.createVersion "breakout_retest" { name := some "v2" } 1]).resolve
        ["breakout_retest"]).specs, t'.version "breakout_retest" v.version=none := by
  let _ := wholeDigest
  have hfirst : ((run .empty [.seed 0]).retire "breakout_retest").toOption.map (·.1.version)=some 1 := by
    decide +kernel
  have hold : ∀ v ∈ (run .empty [.seed 0]).versions "breakout_retest",v.version=1 := by decide +kernel
  cases h : (run .empty [.seed 0]).retire "breakout_retest" with
  | error e => simp [h,Except.toOption] at hfirst
  | ok r =>
    have hr : r.1.version=1 := by simpa [h,Except.toOption] using hfirst
    refine ⟨r.1,r.2,h,fun v hv => ?_⟩
    refine (retired_for_good [.seed 0] _ h (fun u hu hlt => ?_) v hv).2.1
    rw [hold u hu,hr] at hlt
    exact absurd hlt (lt_irrefl 1)

end Library
end TradeGate.Strategies
