import TradeGate.Machine.Run
import TradeGate.Model.Settings

/-! What a patch does to a workflow, key by key: keys that the patch does not name keep their values,
and the value of a key it names is the one it was read as. -/
namespace TradeGate.Settings
open Js Machine

section
variable {patch : Patch} {p q : Patching} {f : Field} {fs : List Field} {k : String} {v : Value}
  {w : Workflow} {now : ℕ}

/-- What one field does: nothing if the patch does not name it. -/
theorem applyField_ok (h : applyField patch p f=.ok q) :
    field patch f.key=none ∧ q=p ∨ ∃ v errors value, field patch f.key=some v ∧
      f.read v=.ok (errors,value) ∧ q.errors=p.errors++errors ∧
      q.next=value.elim p.next fun x => Function.update p.next f.key (x p.next) := by
  unfold applyField at h
  split at h
  · next hn =>
    cases h
    exact .inl ⟨hn,rfl⟩
  · next v hv =>
    obtain ⟨⟨errors,value⟩,hr,h⟩ := bind_ok.mp h
    cases h
    exact .inr ⟨v,errors,value,hv,hr,rfl,rfl⟩

/-- A field changes its own key only, and only if the patch names it. -/
theorem applyField_off (h : applyField patch p f=.ok q) (hk : f.key=k → field patch k=none) :
    q.next k=p.next k := by
  obtain ⟨-,rfl⟩|⟨v,errors,value,hv,-,-,hq⟩ := applyField_ok h
  · rfl
  · have hne : k ≠ f.key := fun he => by
      rw [he,hv] at hk
      cases hk rfl
    rw [hq]
    cases value with
    | none => rfl
    | some x => exact Function.update_of_ne hne _ _

theorem applyFields_off (h : fs.foldlM (applyField patch) p=.ok q)
    (hk : k ∈ fs.map Field.key → field patch k=none) : q.next k=p.next k :=
  foldlM_invariant (I := fun q => q.next k=p.next k) h rfl fun _ hf _ _ hI hs =>
    (applyField_off hs fun he => hk (he ▸ List.mem_map_of_mem hf)).trans hI

theorem applyField_errors (h : applyField patch p f=.ok q) : p.errors ⊆ q.errors := by
  obtain ⟨-,rfl⟩|⟨v,errors,value,-,-,hq,-⟩ := applyField_ok h
  · exact List.Subset.refl _
  · rw [hq]
    exact List.subset_append_left _ _

theorem applyFields_errors (h : fs.foldlM (applyField patch) p=.ok q) : p.errors ⊆ q.errors :=
  foldlM_invariant (I := fun q => p.errors ⊆ q.errors) h (List.Subset.refl _) fun _ _ _ _ hI hs =>
    List.Subset.trans hI (applyField_errors hs)

/-- The value depends on keys outside the list only. -/
def Reading.Within (ks : List String) (r : Reading) : Prop := ∀ errors, ∀ x, r=.ok (errors,some x) →
  ∀ w w', (∀ k ∉ ks, w k=w' k) → x w=x w'

/-- The value is the same whatever the workflow is. -/
def Reading.Plain (r : Reading) : Prop := ∀ errors, ∀ x, r=.ok (errors,some x) → ∀ w w', x w=x w'

theorem Reading.Plain.within {r : Reading} (h : r.Plain) (ks : List String) : r.Within ks :=
  fun errors x hx w w' _ => h errors x hx w w'

/-- A named field is read; its errors are reported, and its value is put under its key. -/
theorem applyFields_at {ks : List String} (h : fs.foldlM (applyField patch) p=.ok q)
    (hnd : (fs.map Field.key).Nodup) (hks : fs.map Field.key ⊆ ks) (hw : ∀ k ∉ ks, p.next k=w k)
    (hf : f ∈ fs) (hv : field patch f.key=some v) : ∃ errors value, f.read v=.ok (errors,value) ∧
      errors ⊆ q.errors ∧ ((f.read v).Within ks → ∀ x ∈ value, q.next f.key=x w) := by
  induction fs generalizing p with
  | nil => cases hf
  | cons g fs ih =>
    rw [List.foldlM_cons] at h
    obtain ⟨p₁,hp₁,hrest⟩ := bind_ok.mp h
    rw [List.map_cons,List.nodup_cons] at hnd
    obtain ⟨hg,hfs⟩ := List.cons_subset.mp hks
    rcases List.mem_cons.mp hf with rfl|hf
    · obtain ⟨hn,-⟩|⟨v',errors,value,hv',hr,he,hnext⟩ := applyField_ok hp₁
      · rw [hv] at hn
        cases hn
      · rw [hv] at hv'
        cases hv'
        refine ⟨errors,value,hr,?_,fun hin x hx => ?_⟩
        · have hsub := applyFields_errors hrest
          rw [he] at hsub
          exact List.Subset.trans (List.subset_append_right _ _) hsub
        · obtain rfl := hx
          rw [applyFields_off hrest fun hmem => absurd hmem hnd.1,hnext]
          exact (Function.update_self _ _ _).trans (hin errors x hr _ _ hw)
    · refine ih hrest hnd.2 hfs (fun k hk => ?_) hf
      exact (applyField_off hp₁ fun he => absurd (he ▸ hg) hk).trans (hw k hk)

/-- Fields that are read without an error report none. -/
theorem applyFields_total (hr : ∀ f ∈ fs, ∀ v, field patch f.key=some v → ∃ x, f.read v=.ok ([],x)) :
    ∃ q, fs.foldlM (applyField patch) p=.ok q ∧ q.errors=p.errors := by
  refine foldlM_total (I := fun q : Patching => q.errors=p.errors) rfl fun f hf b hb => ?_
  unfold applyField
  split
  · exact ⟨b,rfl,hb⟩
  · next v hv =>
    obtain ⟨x,hx⟩ := hr f hf v hv
    exact ⟨_,bind_ok.mpr ⟨_,hx,rfl⟩,by rw [List.append_nil]; exact hb⟩

/-! The whole patch, where it leaves `watchlist_max` alone. -/

theorem applyWatchlistMax_off (h : field patch "watchlist_max"=none) : applyWatchlistMax patch p=.ok p := by
  unfold applyWatchlistMax
  rw [h]

/-- The stages of a patch. -/
theorem applyWorkflowPatch_ok (hm : field patch "watchlist_max"=none)
    (h : applyWorkflowPatch w patch now=.ok q) : ∃ a b c,
      firstFields.foldlM (applyField patch) ⟨w,[]⟩=.ok a ∧ applyField patch a watchOnly=.ok b ∧
      lastFields.foldlM (applyField patch) ⟨keepWatched b.next,b.errors⟩=.ok c ∧
      q=⟨Function.update c.next "updated_at" (rational now),c.errors⟩ := by
  unfold applyWorkflowPatch at h
  obtain ⟨a,ha,h⟩ := bind_ok.mp h
  rw [applyWatchlistMax_off hm] at h
  obtain ⟨b,hb,h⟩ := bind_ok.mp (show applyField patch a watchOnly >>= _=_ from h)
  obtain ⟨c,hc,h⟩ := bind_ok.mp h
  cases h
  exact ⟨a,b,c,ha,hb,hc,rfl⟩

theorem keepWatched_off (hk : k ≠ "watch_only") : keepWatched w k=w k := Function.update_of_ne hk _ _

/-- A key that the patch does not name keeps its value. -/
theorem applyWorkflowPatch_off (hm : field patch "watchlist_max"=none)
    (h : applyWorkflowPatch w patch now=.ok q) (hk : field patch k=none) (ho : k ≠ "watch_only")
    (hu : k ≠ "updated_at") : q.next k=w k := by
  obtain ⟨a,b,c,ha,hb,hc,rfl⟩ := applyWorkflowPatch_ok hm h
  calc Function.update c.next "updated_at" (rational now) k
    _ = c.next k := Function.update_of_ne hu _ _
    _ = keepWatched b.next k := applyFields_off hc fun _ => hk
    _ = b.next k := keepWatched_off ho
    _ = a.next k := applyField_off hb fun _ => hk
    _ = w k := applyFields_off ha fun _ => hk

/-- Symbols that are watched only leave with the watchlist they were on. -/
theorem applyWorkflowPatch_watchOnly (hm : field patch "watchlist_max"=none)
    (h : applyWorkflowPatch w patch now=.ok q) (hk : field patch "watch_only"=none)
    (hl : field patch "watchlist"=none) : q.next "watch_only"=keepWatched w "watch_only" := by
  obtain ⟨a,b,c,ha,hb,hc,rfl⟩ := applyWorkflowPatch_ok hm h
  have hbk : ∀ {k}, field patch k=none → b.next k=w k := fun hk =>
    (applyField_off hb fun _ => hk).trans (applyFields_off ha fun _ => hk)
  calc Function.update c.next "updated_at" (rational now) "watch_only"
    _ = c.next "watch_only" := Function.update_of_ne (by decide) _ _
    _ = keepWatched b.next "watch_only" := applyFields_off hc fun _ => hk
    _ = keepWatched w "watch_only" := by
      simp only [keepWatched,Function.update_self,hbk hk,hbk hl]

/-- The key of an early field that the patch names has the value it was read as. -/
theorem applyWorkflowPatch_first (hm : field patch "watchlist_max"=none)
    (h : applyWorkflowPatch w patch now=.ok q) (hf : f ∈ firstFields) (hv : field patch f.key=some v) :
    ∃ errors value, f.read v=.ok (errors,value) ∧ errors ⊆ q.errors ∧
      ((f.read v).Within (firstFields.map Field.key) → ∀ x ∈ value, q.next f.key=x w) := by
  obtain ⟨a,b,c,ha,hb,hc,rfl⟩ := applyWorkflowPatch_ok hm h
  obtain ⟨errors,value,hr,he,hx⟩ := applyFields_at (w := w) ha (by decide +kernel)
    (List.Subset.refl _) (fun _ _ => rfl) hf hv
  have hlast := applyFields_errors hc
  have hsub : a.errors ⊆ c.errors := List.Subset.trans (applyField_errors hb) hlast
  refine ⟨errors,value,hr,List.Subset.trans he hsub,fun hin x hval => ?_⟩
  have hne : f.key ≠ "updated_at" ∧ f.key ≠ "watch_only" ∧ f.key ∉ lastFields.map Field.key := by
    have hall : ∀ k ∈ firstFields.map Field.key,
        k ≠ "updated_at" ∧ k ≠ "watch_only" ∧ k ∉ lastFields.map Field.key := by decide +kernel
    exact hall _ (List.mem_map_of_mem hf)
  calc Function.update c.next "updated_at" (rational now) f.key
    _ = c.next f.key := Function.update_of_ne hne.1 _ _
    _ = keepWatched b.next f.key := applyFields_off hc fun hk => absurd hk hne.2.2
    _ = b.next f.key := keepWatched_off hne.2.1
    _ = a.next f.key := applyField_off hb fun hk => absurd hk.symm hne.2.1
    _ = x w := hx hin x hval

/-- And so has the key of a late field. -/
theorem applyWorkflowPatch_last (hm : field patch "watchlist_max"=none)
    (h : applyWorkflowPatch w patch now=.ok q) (hf : f ∈ lastFields) (hv : field patch f.key=some v) :
    ∃ errors value, f.read v=.ok (errors,value) ∧ errors ⊆ q.errors ∧
      ((f.read v).Plain → ∀ x ∈ value, q.next f.key=x w) := by
  obtain ⟨a,b,c,ha,hb,hc,rfl⟩ := applyWorkflowPatch_ok hm h
  obtain ⟨errors,value,hr,he,hx⟩ := applyFields_at hc (by decide +kernel) (List.Subset.refl _)
    (fun _ _ => rfl) hf hv
  refine ⟨errors,value,hr,he,fun hpl x hval => ?_⟩
  have hne : f.key ≠ "updated_at" := by
    have hall : ∀ k ∈ lastFields.map Field.key, k ≠ "updated_at" := by decide +kernel
    exact hall _ (List.mem_map_of_mem hf)
  obtain rfl := hval
  calc Function.update c.next "updated_at" (rational now) f.key
    _ = c.next f.key := Function.update_of_ne hne _ _
    _ = x (keepWatched b.next) := hx (hpl.within _) x rfl
    _ = x w := hpl errors x hr _ _

/-- The symbols among these that are on the watchlist. -/
def watched (list : List String) (watchlist : Value) : Value :=
  .arr (((list.map fun s => upperCase (trimmed s)).filter fun s =>
    Value.str s ∈ elements watchlist).eraseDups.map .str)

theorem applyWorkflowPatch_marked (hm : field patch "watchlist_max"=none)
    (h : applyWorkflowPatch w patch now=.ok q) (hv : field patch "watch_only"=some v) :
    ∃ errors value, watchOnly.read v=.ok (errors,value) ∧ errors ⊆ q.errors ∧
      ∀ raw list, v=.arr raw → raw.mapM textOf=.ok list →
        q.next "watch_only"=watched list (q.next "watchlist") := by
  obtain ⟨a,b,c,ha,hb,hc,rfl⟩ := applyWorkflowPatch_ok hm h
  obtain ⟨hn,-⟩|⟨v',errors,value,hv',hr,he,hnext⟩ := applyField_ok hb
  · rw [show watchOnly.key="watch_only" from rfl,hv] at hn
    cases hn
  · rw [show watchOnly.key="watch_only" from rfl,hv] at hv'
    cases hv'
    have hlast := applyFields_errors hc
    refine ⟨errors,value,hr,List.Subset.trans (he ▸ List.subset_append_right _ _) hlast,
      fun raw list hraw hlist => ?_⟩
    have hval : value=some fun w => watched list (w "watchlist") := by
      rw [hraw] at hr
      obtain ⟨l,hl,hr⟩ := bind_ok.mp hr
      rw [hlist] at hl
      cases hl
      cases hr
      rfl
    have hlate : ∀ k ∈ ["watchlist","watch_only"], c.next k=keepWatched b.next k := by
      have hall : ∀ k ∈ ["watchlist","watch_only"], k ∉ lastFields.map Field.key := by decide +kernel
      exact fun k hk => applyFields_off hc fun hmem => absurd hmem (hall k hk)
    have hbl : b.next "watchlist"=a.next "watchlist" :=
      applyField_off hb fun hk => absurd hk (by decide)
    have hbw : b.next "watch_only"=watched list (a.next "watchlist") := by
      rw [hnext,hval]
      exact Function.update_self (f := a.next) "watch_only" _
    have hkeep : keepWatched b.next "watch_only"=watched list (a.next "watchlist") := by
      simp only [keepWatched,Function.update_self,hbw,hbl]
      refine congrArg Value.arr (List.filter_eq_self.mpr fun s hs => ?_)
      obtain ⟨x,hx,rfl⟩ := List.mem_map.mp hs
      exact (List.mem_filter.mp (List.mem_eraseDups.mp hx)).2
    have hlist' : c.next "watchlist"=a.next "watchlist" :=
      (hlate _ (by decide)).trans ((keepWatched_off (by decide)).trans hbl)
    have hu : ∀ k, k ≠ "updated_at" → Function.update c.next "updated_at" (rational now) k=c.next k :=
      fun k hk => Function.update_of_ne hk _ _
    dsimp only
    rw [hu _ (by decide),hu _ (by decide),hlist',← hkeep]
    exact hlate _ (by decide)

/-- A patch without an error: every key that it names was read without one. -/
theorem applyWorkflowPatch_reads (hm : field patch "watchlist_max"=none)
    (h : applyWorkflowPatch w patch now=.ok q) (he : q.errors=[])
    (hf : f ∈ firstFields ++ watchOnly::lastFields) (hv : field patch f.key=some v) :
    ∃ value, f.read v=.ok ([],value) := by
  have hnil : ∀ {errors : List String} {value}, f.read v=.ok (errors,value) → errors ⊆ q.errors →
      ∃ value, f.read v=.ok ([],value) := fun {_ value} hr hsub => by
    rw [he,List.subset_nil] at hsub
    exact ⟨value,hsub ▸ hr⟩
  rcases List.mem_append.mp hf with hf|hf
  · obtain ⟨_,_,hr,hsub,-⟩ := applyWorkflowPatch_first hm h hf hv
    exact hnil hr hsub
  · rcases List.mem_cons.mp hf with rfl|hf
    · obtain ⟨_,_,hr,hsub,-⟩ := applyWorkflowPatch_marked hm h hv
      exact hnil hr hsub
    · obtain ⟨_,_,hr,hsub,-⟩ := applyWorkflowPatch_last hm h hf hv
      exact hnil hr hsub

/-- And it has no error on any other workflow. -/
theorem applyWorkflowPatch_total (hm : field patch "watchlist_max"=none)
    (hr : ∀ f ∈ firstFields ++ watchOnly::lastFields, ∀ v, field patch f.key=some v →
      ∃ value, f.read v=.ok ([],value)) : ∃ q, applyWorkflowPatch w patch now=.ok q ∧ q.errors=[] := by
  obtain ⟨a,ha,hea⟩ := applyFields_total (p := ⟨w,[]⟩) fun f hf => hr f (List.mem_append_left _ hf)
  obtain ⟨b,hb,heb⟩ : ∃ b, [watchOnly].foldlM (applyField patch) a=.ok b ∧ b.errors=a.errors :=
    applyFields_total fun f hf =>
      hr f (List.mem_append_right _ (List.mem_cons.mpr (.inl (List.mem_singleton.mp hf))))
  obtain ⟨c,hc,hec⟩ := applyFields_total (p := ⟨keepWatched b.next,b.errors⟩) fun f hf =>
    hr f (List.mem_append_right _ (List.mem_cons_of_mem _ hf))
  have hb' : applyField patch a watchOnly=.ok b := by
    rw [List.foldlM_cons] at hb
    obtain ⟨d,hd,hb⟩ := bind_ok.mp hb
    cases hb
    exact hd
  refine ⟨⟨Function.update c.next "updated_at" (rational now),c.errors⟩,?_,hec.trans (heb.trans hea)⟩
  refine bind_ok.mpr ⟨a,ha,?_⟩
  rw [applyWatchlistMax_off hm]
  exact bind_ok.mpr ⟨a,rfl,bind_ok.mpr ⟨b,hb',bind_ok.mpr ⟨c,hc,rfl⟩⟩⟩

end
end TradeGate.Settings
