import Mathlib.Logic.Relation
import TradeGate.Machine.Run
import TradeGate.Model.Library

/-! What one write to the library may put there, and that the operations do nothing else. -/
namespace TradeGate.Strategies
open Keyed Js Relation

namespace Library

variable {t t' : Library} {s r head : StrategySpec} {id : String} {n : ℕ}

theorem mem_versions : s ∈ t.versions id ↔ s ∈ t.rows.rows ∧ s.id=id := by
  simp [versions]

theorem versions_sorted (t : Library) (id : String) :
    (t.versions id).Pairwise fun s r => r.version ≤ s.version := by
  have : Std.Total fun s r : StrategySpec => r.version ≤ s.version := ⟨fun s r => le_total _ _⟩
  have : IsTrans StrategySpec fun s r => r.version ≤ s.version := ⟨fun _ _ _ h k => k.trans h⟩
  exact List.pairwise_insertionSort _ _

theorem version_eq_some : t.version id n=some s ↔ s ∈ t.rows.rows ∧ s.id=id ∧ s.version=n := by
  constructor
  · intro h
    have hkey := Table.key_of_lookup h
    exact ⟨Table.mem_of_lookup h,congrArg Prod.fst hkey,congrArg Prod.snd hkey⟩
  · rintro ⟨h,rfl,rfl⟩
    exact Table.lookup_of_mem h

theorem head_eq_some : t.head id=some s →
    t.version id s.version=some s ∧ s.id=id ∧ ∀ r ∈ t.versions id, r.version ≤ s.version := by
  intro h
  obtain ⟨rest,hv⟩ := List.head?_eq_some_iff.mp h
  have hs : s ∈ t.versions id := by simp [hv]
  have hsorted := t.versions_sorted id
  rw [hv,List.pairwise_cons] at hsorted
  refine ⟨version_eq_some.mpr ⟨(mem_versions.mp hs).1,(mem_versions.mp hs).2,rfl⟩,(mem_versions.mp hs).2,?_⟩
  intro r hr
  rw [hv,List.mem_cons] at hr
  cases hr with
  | inl h => rw [h]
  | inr h => exact hsorted.1 r h

/-- The version of the head is the greatest. -/
theorem version_le_head (h : t.head id=some head) (hs : t.version id n=some s) : n ≤ head.version := by
  obtain ⟨hmem,hid,rfl⟩ := version_eq_some.mp hs
  exact (head_eq_some h).2.2 s (mem_versions.mpr ⟨hmem,hid⟩)

theorem version_write : (t.write s).version id n=if s.key=(id,n) then some s else t.version id n :=
  Table.lookup_upsert t.rows s (id,n)

theorem version_write_self (h : s.id=id) : (t.write s).version id s.version=some s := by
  rw [version_write,StrategySpec.key,h,if_pos rfl]

/-- A change of a parameter leaves every parameter there. -/
theorem patchParam_keeps {params params' : Params} {change : String × Js.Num}
    (h : patchParam id params change=.ok params') {k : String} (hk : (params.get k).isSome) :
    (params'.get k).isSome := by
  unfold patchParam at h
  split at h
  · cases h
  next cur _ =>
    split at h
    · split at h
      · cases h
      · cases h
        rw [Map.get_set]
        split
        · rfl
        · exact hk
    · cases h

section
variable [Host]

/-- What one write may put into the library, where promotions go to the given statuses. -/
inductive Change (T : StrategyStatus → Prop) (t : Library) : StrategySpec → Prop
  | seeded (b : BuiltIn) (now : ℕ) : b ∈ builtinDefs → t.version b.id 1=none →
      Change T t { b.spec with createdAt := now }
  | filled (b : BuiltIn) (stored next : StrategySpec) : b ∈ builtinDefs →
      t.version b.id 1=some stored → (∃ q ∈ b.params.rows, stored.params.get q.1=none) →
      next.key=stored.key → next.status=stored.status → Change T t next
  | created (head s : StrategySpec) : t.head head.id=some head → s.id=head.id →
      s.version=head.version+1 → s.status=.draft → s.contentHash=strategyContentHash s.toContent →
      (∀ k, (head.params.get k).isSome → (s.params.get k).isSome) → Change T t s
  | moved (head : StrategySpec) (target : StrategyStatus) (confirm : Bool) : T target →
      t.head head.id=some head → promoteGate head target confirm=none →
      Change T t { head with status := target }
  | retired (head : StrategySpec) : t.head head.id=some head →
      Change T t { head with status := .retired }
  | tested (s : StrategySpec) (lab : Option LabStats) : t.version s.id s.version=some s →
      Change T t { s with labStats := lab }
  | replayed (head : StrategySpec) (stats : StrategyEvalStats) : t.head head.id=some head →
      Change T t { head with evalStats := stats }

variable {T : StrategyStatus → Prop}

theorem Change.mono {U : StrategyStatus → Prop} (h : Change T t s) (hTU : ∀ target, T target → U target) :
    Change U t s := by
  cases h with
  | seeded b now hb hnew => exact .seeded b now hb hnew
  | filled b stored _ hb hstored hmissing hkey hstatus =>
    exact .filled b stored _ hb hstored hmissing hkey hstatus
  | created head _ hhead hid hversion hdraft hhash hparams =>
    exact .created head _ hhead hid hversion hdraft hhash hparams
  | moved head target confirm hT hhead hgate => exact .moved head target confirm (hTU target hT) hhead hgate
  | retired head hhead => exact .retired head hhead
  | tested s lab hs => exact .tested s lab hs
  | replayed head stats hhead => exact .replayed head stats hhead

/-- One write. -/
def Writes (T : StrategyStatus → Prop) (t t' : Library) : Prop := ∃ s, Change T t s ∧ t'=t.write s

theorem Change.writes (h : Change T t s) : ReflTransGen (Writes T) t (t.write s) := .single ⟨s,h,rfl⟩

theorem seedOne_writes {u : Library × ℕ} {b : BuiltIn} (hb : b ∈ builtinDefs) (now : ℕ) :
    ReflTransGen (Writes T) u.1 (seedOne now u b.spec).1 := by
  unfold seedOne
  split
  next stored h =>
    unfold backfillParams
    dsimp only
    split
    · exact .refl
    next hmissing =>
      obtain ⟨q,hq⟩ := List.exists_mem_of_ne_nil _ hmissing
      rw [List.mem_filter,decide_eq_true_iff] at hq
      refine .single ⟨_,.filled b stored _ hb h ⟨q,hq⟩ ?_ ?_,rfl⟩
      · rfl
      · rfl
  next h => exact (Change.seeded b now hb h).writes

theorem seed_writes (t : Library) (now : ℕ) : ReflTransGen (Writes T) t (t.seed now).1 := by
  suffices h : ∀ (bs : List BuiltIn) (u : Library × ℕ), bs ⊆ builtinDefs →
      ReflTransGen (Writes T) u.1 ((bs.map BuiltIn.spec).foldl (seedOne now) u).1 from
    h builtinDefs (t,0) fun _ h => h
  intro bs
  induction bs with
  | nil => exact fun u _ => .refl
  | cons b bs ih =>
    intro u hbs
    exact (seedOne_writes (hbs List.mem_cons_self) now).trans
      (ih _ fun c hc => hbs (List.mem_cons_of_mem _ hc))

/-- A new version is a draft after the head, with the hash of its content and all parameters. -/
theorem createVersion_eq_ok {patch : VersionPatch} {now : ℕ}
    (h : t.createVersion id patch now=.ok (s,t')) : Change T t s ∧ s.id=id ∧ t'=t.write s := by
  unfold createVersion at h
  split at h
  · cases h
  next head hhead =>
    split at h
    · cases h
    next params hparams =>
      dsimp only at h
      split at h
      · cases h
      · cases h
        have hid := (head_eq_some hhead).2.1
        refine ⟨.created head _ (hid ▸ hhead) rfl rfl rfl rfl ?_,hid,rfl⟩
        intro k hk
        exact Machine.foldlM_invariant (I := fun ps : Params => (ps.get k).isSome) hparams hk
          fun _ _ _ _ hI hs => patchParam_keeps hs hI

end

/-- The gate lets a version one step forward, through the gate of that step. -/
theorem promoteGate_eq_none {target : StrategyStatus} {confirm : Bool}
    (h : promoteGate s target confirm=none) : s.status ≠ .retired ∧ target.index=s.status.index+1 ∧
      (target=.shadow → shadowGate s=none) ∧ (target=.paper → paperGate s=none) := by
  unfold promoteGate at h
  split at h
  · cases h
  next hretired =>
    split at h
    · cases h
    · split at h
      · cases h
      next hnext =>
        refine ⟨hretired,not_not.mp hnext,?_,?_⟩
        · rintro rfl
          exact h
        · rintro rfl
          exact h

/-- A promotion changes the status of the head, and the gate let it. -/
theorem promote_eq_ok {target : StrategyStatus} {confirm : Bool}
    (h : t.promote id target confirm=.ok (s,t')) : ∃ head, t.head id=some head ∧
      promoteGate head target confirm=none ∧ s={ head with status := target } ∧ t'=t.write s := by
  unfold promote at h
  split at h
  · cases h
  next head hhead =>
    split at h
    · cases h
    next hgate =>
      cases h
      exact ⟨head,hhead,hgate,rfl,rfl⟩

/-- A retirement that succeeds leaves the head retired. -/
theorem retire_eq_ok (h : t.retire id=.ok (s,t')) : ∃ head, t.head id=some head ∧
    (head.status=.retired ∧ s=head ∧ t'=t ∨ s={ head with status := .retired } ∧ t'=t.write s) := by
  unfold retire at h
  split at h
  · cases h
  next head hhead =>
    split at h
    next hretired =>
      cases h
      exact ⟨_,hhead,.inl ⟨hretired,rfl,rfl⟩⟩
    · cases h
      exact ⟨head,hhead,.inr ⟨rfl,rfl⟩⟩

section
variable [Host]

theorem promote_writes {target : StrategyStatus} {confirm : Bool}
    (h : t.promote id target confirm=.ok (s,t')) : ReflTransGen (Writes (· = target)) t t' := by
  obtain ⟨head,hhead,hgate,rfl,rfl⟩ := promote_eq_ok h
  have hid := (head_eq_some hhead).2.1
  have hchange : Change (· = target) t { head with status := target } :=
    .moved head target confirm rfl (hid ▸ hhead) hgate
  exact hchange.writes

theorem ensureBreakoutRetestV2_writes {now : ℕ} (h : t.ensureBreakoutRetestV2 now=some (s,t')) :
    ReflTransGen (Writes (· = .backtest)) t t' := by
  unfold ensureBreakoutRetestV2 at h
  split at h
  · cases h
  · split at h
    · cases h
    · split at h
      · cases h
      next spec made hmade =>
        obtain ⟨hchange,-,rfl⟩ := createVersion_eq_ok (T := (· = .backtest)) hmade
        split at h
        · rw [Option.some.injEq,Prod.mk.injEq] at h
          obtain ⟨rfl,rfl⟩ := h
          exact hchange.writes
        next promoted hpromoted =>
          cases h
          exact hchange.writes.trans (promote_writes hpromoted)

/-- The statuses to which an operation promotes. -/
def Op.targets : Op → StrategyStatus → Prop
  | .promote _ target _ => (· = target)
  | .ensureBreakoutRetestV2 _ => (· = .backtest)
  | _ => fun _ => False

/-- Every operation is a sequence of such writes. -/
theorem apply_writes (t : Library) (op : Op) : ReflTransGen (Writes op.targets) t (t.apply op) := by
  cases op with
  | seed now => exact seed_writes t now
  | createVersion id patch now =>
    show ReflTransGen (Writes _) t (t.after (t.createVersion id patch now))
    cases h : t.createVersion id patch now with
    | error e => exact .refl
    | ok r =>
      obtain ⟨hchange,-,ht⟩ := createVersion_eq_ok h
      rw [after,ht]
      exact hchange.writes
  | promote id target confirm =>
    show ReflTransGen (Writes _) t (t.after (t.promote id target confirm))
    cases h : t.promote id target confirm with
    | error e => exact .refl
    | ok r => exact promote_writes h
  | retire id =>
    show ReflTransGen (Writes _) t (t.after (t.retire id))
    cases h : t.retire id with
    | error e => exact .refl
    | ok r =>
      obtain ⟨head,hhead,⟨-,-,ht⟩|⟨hs,ht⟩⟩ := retire_eq_ok h
      · rw [after,ht]
      · have hid := (head_eq_some hhead).2.1
        rw [after,ht,hs]
        exact (Change.retired head (hid ▸ hhead)).writes
  | updateLabStats id version stats =>
    simp only [apply,updateLabStats,Option.map_map]
    cases h : t.version id version with
    | none => exact .refl
    | some s =>
      obtain ⟨-,hid,hn⟩ := version_eq_some.mp h
      exact (Change.tested s (some stats) (by rw [hid,hn,h])).writes
  | updateEvalStats id trades expectancyR =>
    simp only [apply,updateEvalStats,Option.map_map]
    cases h : t.head id with
    | none => exact .refl
    | some head =>
      have hid := (head_eq_some h).2.1
      exact (Change.replayed head _ (hid ▸ h)).writes
  | ensureBreakoutRetestV2 now =>
    simp only [apply]
    cases h : t.ensureBreakoutRetestV2 now with
    | none => exact .refl
    | some r => exact ensureBreakoutRetestV2_writes h

theorem apply_invariant {I : Library → Prop} {op : Op}
    (keep : ∀ t s, I t → Change op.targets t s → I (t.write s)) (h : I t) : I (t.apply op) := by
  have hwrites := t.apply_writes op
  generalize t.apply op=u at hwrites ⊢
  induction hwrites with
  | refl => exact h
  | tail _ hw ih =>
    obtain ⟨s,hs,rfl⟩ := hw
    exact keep _ s ih hs

/-- What every write keeps holds after all operations. -/
theorem run_invariant {I : Library → Prop}
    (keep : ∀ t s, I t → Change (fun _ => True) t s → I (t.write s)) (h : I t) (ops : List Op) :
    I (t.run ops) := by
  induction ops generalizing t with
  | nil => exact h
  | cons op ops ih =>
    exact ih (apply_invariant (fun t s ht hs => keep t s ht (hs.mono fun _ _ => trivial)) h)

end
end Library
end TradeGate.Strategies
