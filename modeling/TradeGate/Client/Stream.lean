import TradeGate.Feed.Consecutive
import TradeGate.Machine.Run
import TradeGate.Model.ExecClient

/-! The events that a subscription of the client hands on. -/
namespace TradeGate.ExecClient
open Execd Feed Machine

/-- The frames that a socket has. -/
def Socket.frames : Socket → List Frame
  | connecting buffered => buffered
  | ready wire => wire
  | shut => []

/-- The frames that have not been lost: on the socket, or in the queue. -/
def frames (c : ExecClient) : List Frame := (c.socket.elim [] Socket.frames)++c.writeQueue

/-- The events of a subscription, which ends at the last number. -/
structure ActiveSubscription.InOrder (s : ActiveSubscription) : Prop where
  delivered : Consecutive ExecEvent.seq s.sinceSeq s.delivered
  last : s.lastDeliveredSeq=s.sinceSeq+s.delivered.length

/-- The client, on a connection or not; the requests of the subscription ask for events from no later
than it has. -/
structure Based (c : ExecClient) : Prop where
  «open» : c.socket.isSome=true → c.closed=false
  past : ∀ s ∈ c.past, s.InOrder
  active : ∀ s ∈ c.subscription, s.InOrder
  frames : ∀ f ∈ c.frames, f.id<c.nextId
  requests : ∀ s ∈ c.subscription, ∀ id ∈ s.requests, id<c.nextId
  behind : ∀ s ∈ c.subscription, ∀ f ∈ c.frames, f.id ∈ s.requests →
    ∃ n, f.method=.eventsSubscribe n ∧ n ≤ s.lastDeliveredSeq

/-- On a connection the subscription was asked for. -/
structure Coherent (c : ExecClient) : Prop extends Based c where
  asked : ∀ s ∈ c.subscription, c.receiving=true → ∃ f ∈ c.wire, f.id ∈ s.requests

/-- An older request of the subscription was one before, when the subscription was not further. -/
structure Onward (c c' : ExecClient) : Prop where
  nextId : c.nextId ≤ c'.nextId
  requests : ∀ s' ∈ c'.subscription, ∀ id ∈ s'.requests, id<c.nextId →
    ∃ s ∈ c.subscription, id ∈ s.requests ∧ s.lastDeliveredSeq ≤ s'.lastDeliveredSeq

variable {c c' : ExecClient}

theorem Onward.of_eq (hs : c'.subscription=c.subscription) (hn : c.nextId ≤ c'.nextId) : Onward c c' :=
  ⟨hn,fun s hs' _ hid _ => ⟨s,hs ▸ hs',hid,le_rfl⟩⟩

theorem Onward.none (hs : c'.subscription=none) (hn : c.nextId ≤ c'.nextId) : Onward c c' :=
  ⟨hn,fun s hs' => by rw [hs] at hs'; cases hs'⟩

theorem Onward.refl (c : ExecClient) : Onward c c := .of_eq rfl le_rfl

theorem Onward.trans {c'' : ExecClient} (h : Onward c c') (h' : Onward c' c'') : Onward c c'' where
  nextId := h.nextId.trans h'.nextId
  requests s'' hs'' id hid hlt := by
    obtain ⟨s',hs',hid',hle'⟩ := h'.requests s'' hs'' id hid (by have := h.nextId; omega)
    obtain ⟨s,hs,hid,hle⟩ := h.requests s' hs' id hid' hlt
    exact ⟨s,hs,hid,hle.trans hle'⟩

theorem wire_subset : c.wire ⊆ c.frames := by
  intro f hf
  unfold wire at hf
  unfold ExecClient.frames
  split at hf
  · next hs =>
    rw [hs]
    exact List.mem_append_left _ hf
  · cases hf

/-! What a frame that is sent changes. -/

section
variable (c) (f : Frame)

theorem mem_frames_send {g : Frame} : g ∈ (c.send f).frames ↔ g ∈ c.frames ∨ g=f := by
  unfold send writable write frames
  cases hs : c.socket with
  | none => simp
  | some s => cases s <;> simp [Socket.frames,or_comm,or_left_comm]

@[simp] theorem send_subscription : (c.send f).subscription=c.subscription := by
  unfold send write
  split <;> rfl

@[simp] theorem send_past : (c.send f).past=c.past := by
  unfold send write
  split <;> rfl

@[simp] theorem send_nextId : (c.send f).nextId=c.nextId := by
  unfold send write
  split <;> rfl

@[simp] theorem send_closed : (c.send f).closed=c.closed := by
  unfold send write
  split <;> rfl

@[simp] theorem send_isSome : (c.send f).socket.isSome=c.socket.isSome := by
  unfold send write
  split <;> simp

theorem send_receiving : (c.send f).receiving=c.receiving := by
  unfold send writable write receiving
  cases hs : c.socket with
  | none => simp
  | some s => cases s <;> simp

/-- On a connection the frame goes out. -/
theorem send_wire (h : c.receiving=true) : (c.send f).wire=c.wire++[f] := by
  unfold receiving at h
  unfold send writable write wire
  cases hs : c.socket with
  | none => simp [hs] at h
  | some s => cases s <;> simp_all

theorem call_closed (h : c.closed=true) (method : Method) (timeoutMs : Option ℕ) :
    c.call method timeoutMs=c := by
  unfold call
  rw [if_pos h]

/-- A call is a frame under a new id. -/
theorem call_open (h : c.closed=false) (method : Method) (timeoutMs : Option ℕ) :
    ∃ pending, c.call method timeoutMs=
      { c with nextId := c.nextId+1, pending := pending }.send ⟨c.nextId,method⟩ := by
  unfold call
  rw [if_neg (by simp [h])]
  exact ⟨_,rfl⟩

end

theorem Based.call (h : Based c) (method : Method) (timeoutMs : Option ℕ) :
    Based (c.call method timeoutMs) := by
  cases hc : c.closed with
  | true => rwa [call_closed c hc]
  | false =>
    obtain ⟨pending,hcall⟩ := call_open c hc method timeoutMs
    rw [hcall]
    refine ⟨fun _ => ?_,?_,?_,fun f hf => ?_,?_,?_⟩
    · rw [send_closed]
      exact hc
    · rw [send_past]
      exact h.past
    · rw [send_subscription]
      exact h.active
    · rw [send_nextId]
      rcases (mem_frames_send _ _).mp hf with hf|rfl
      · exact Nat.lt_succ_of_lt (h.frames f hf)
      · exact Nat.lt_succ_self _
    · rw [send_subscription,send_nextId]
      exact fun s hs id hid => Nat.lt_succ_of_lt (h.requests s hs id hid)
    · rw [send_subscription]
      intro s hs f hf hid
      rcases (mem_frames_send _ _).mp hf with hf|rfl
      · exact h.behind s hs f hf hid
      · exact absurd (h.requests s hs _ hid) (lt_irrefl _)

theorem onward_call (c : ExecClient) (method : Method) (timeoutMs : Option ℕ) :
    Onward c (c.call method timeoutMs) := by
  cases hc : c.closed with
  | true => rw [call_closed c hc]; exact .refl c
  | false =>
    obtain ⟨pending,hcall⟩ := call_open c hc method timeoutMs
    rw [hcall]
    exact .of_eq (send_subscription _ _) (by rw [send_nextId]; exact Nat.le_succ _)

theorem Coherent.call (h : Coherent c) (method : Method) (timeoutMs : Option ℕ) :
    Coherent (c.call method timeoutMs) := by
  refine ⟨h.toBased.call method timeoutMs,?_⟩
  cases hc : c.closed with
  | true =>
    rw [call_closed c hc]
    exact h.asked
  | false =>
    obtain ⟨pending,hcall⟩ := call_open c hc method timeoutMs
    rw [hcall,send_subscription,send_receiving]
    intro s hs hr
    obtain ⟨f,hf,hid⟩ := h.asked s hs hr
    exact ⟨f,by rw [send_wire _ _ hr]; exact List.mem_append_left _ hf,hid⟩

/-- A request of the subscription is a frame under a new id, which the subscription has then. -/
theorem requestSubscribe_open (h : c.closed=false) (sinceSeq : ℕ) :
    ∃ d, d.subscription=c.subscription ∧ d.nextId=c.nextId+1 ∧ d.receiving=c.receiving ∧
      (∀ f ∈ d.frames, f ∈ c.frames ∨ f=⟨c.nextId,.eventsSubscribe sinceSeq⟩) ∧
      (c.receiving=true → ⟨c.nextId,.eventsSubscribe sinceSeq⟩ ∈ d.wire) ∧
      (Based c → Based d) ∧ c.requestSubscribe sinceSeq={ d with
        subscription := d.subscription.map fun s => { s with requests := s.requests++[c.nextId] } } := by
  obtain ⟨pending,hcall⟩ := call_open c h (.eventsSubscribe sinceSeq) none
  refine ⟨c.call (.eventsSubscribe sinceSeq) none,?_,?_,?_,?_,?_,fun hb => hb.call _ _,?_⟩
  · rw [hcall,send_subscription]
  · rw [hcall,send_nextId]
  · rw [hcall,send_receiving]
    rfl
  · rw [hcall]
    exact fun f hf => (mem_frames_send { c with nextId := c.nextId+1, pending := pending } _).mp hf
  · intro hr
    rw [hcall,send_wire { c with nextId := c.nextId+1, pending := pending } _ hr]
    exact List.mem_append_right _ (List.mem_singleton_self _)
  · unfold ExecClient.requestSubscribe
    exact if_neg (by simp [h])

/-- A request for the events after the last one, or after an earlier one. -/
theorem Based.requestSubscribe (h : Based c) {sinceSeq : ℕ}
    (hs : ∀ s ∈ c.subscription, sinceSeq ≤ s.lastDeliveredSeq) :
    Coherent (c.requestSubscribe sinceSeq) ∧ Onward c (c.requestSubscribe sinceSeq) := by
  cases hc : c.closed with
  | true =>
    have hsame : c.requestSubscribe sinceSeq=c := by
      unfold ExecClient.requestSubscribe
      rw [call_closed c hc]
      exact if_pos hc
    rw [hsame]
    refine ⟨⟨h,fun s _ hr => ?_⟩,.refl c⟩
    -- there is no connection after the close
    have hopen : c.closed=false := h.open (by
      unfold receiving at hr
      cases hsock : c.socket with
      | none => simp [hsock] at hr
      | some s => rfl)
    rw [hc] at hopen
    cases hopen
  | false =>
    obtain ⟨d,hsub,hnext,hrec,hframes,hwire,hbased,hreq⟩ := requestSubscribe_open hc sinceSeq
    have hd := hbased h
    rw [hreq]
    have hmem : ∀ s' ∈ d.subscription.map (fun s => { s with requests := s.requests++[c.nextId] }),
        ∃ s ∈ c.subscription, { s with requests := s.requests++[c.nextId] }=s' := fun s' hs' => by
      rw [hsub] at hs'
      exact Option.mem_map.mp hs'
    refine ⟨⟨⟨hd.open,hd.past,?_,hd.frames,?_,?_⟩,?_⟩,⟨?_,?_⟩⟩
    · intro s' hs'
      obtain ⟨s,hs,rfl⟩ := hmem s' hs'
      exact ⟨(h.active s hs).delivered,(h.active s hs).last⟩
    · intro s' hs' id hid
      obtain ⟨s,hs₀,rfl⟩ := hmem s' hs'
      change id<d.nextId
      rw [hnext]
      rcases List.mem_append.mp hid with hid|hid
      · exact Nat.lt_succ_of_lt (h.requests s hs₀ id hid)
      · cases List.mem_singleton.mp hid
        exact Nat.lt_succ_self _
    · intro s' hs' f hf hid
      obtain ⟨s,hs₀,rfl⟩ := hmem s' hs'
      rcases hframes f hf with hf|rfl
      · rcases List.mem_append.mp hid with hid|hid
        · exact h.behind s hs₀ f hf hid
        · have := h.frames f hf
          have := List.mem_singleton.mp hid
          omega
      · exact ⟨sinceSeq,rfl,hs s hs₀⟩
    · intro s' hs' hr
      obtain ⟨s,hs₀,rfl⟩ := hmem s' hs'
      change d.receiving=true at hr
      rw [hrec] at hr
      exact ⟨_,hwire hr,List.mem_append_right _ (List.mem_singleton_self _)⟩
    · change c.nextId ≤ d.nextId
      omega
    · intro s' hs' id hid hlt
      obtain ⟨s,hs₀,rfl⟩ := hmem s' hs'
      rcases List.mem_append.mp hid with hid|hid
      · exact ⟨s,hs₀,hid,le_rfl⟩
      · have := List.mem_singleton.mp hid
        omega

/-- The subscriptions stay, and frames may be lost. -/
theorem Coherent.narrow (h : Coherent c) (hopen : c'.socket.isSome=true → c'.closed=false)
    (hpast : c'.past=c.past) (hs : c'.subscription=c.subscription) (hn : c'.nextId=c.nextId)
    (hf : c'.frames ⊆ c.frames) (hw : c'.receiving=true → c.receiving=true ∧ c'.wire=c.wire) :
    Coherent c' := by
  refine ⟨⟨hopen,hpast ▸ h.past,hs ▸ h.active,fun f hf' => hn ▸ h.frames f (hf hf'),?_,
    fun s hs' f hf' => h.behind s (hs ▸ hs') f (hf hf')⟩,fun s hs' hr => ?_⟩
  · rw [hs,hn]
    exact h.requests
  · obtain ⟨hr',hw'⟩ := hw hr
    rw [hw']
    exact h.asked s (hs ▸ hs') hr'


/-! The other operations. -/

theorem Coherent.subscribe (h : Coherent c) (sinceSeq : ℕ) :
    Coherent (c.subscribe sinceSeq) ∧ Onward c (c.subscribe sinceSeq) := by
  unfold ExecClient.subscribe
  split
  · exact ⟨h,.refl c⟩
  · have hnew : ∀ s ∈ some (⟨sinceSeq,sinceSeq,0,0,[],[]⟩ : ActiveSubscription),
        s=⟨sinceSeq,sinceSeq,0,0,[],[]⟩ := fun s hs => (Option.some.inj hs).symm
    have hbased : Based { c with subscription := some ⟨sinceSeq,sinceSeq,0,0,[],[]⟩ } := by
      refine ⟨h.open,h.past,fun s hs => ?_,h.frames,fun s hs id hid => ?_,fun s hs f _ hid => ?_⟩ <;>
        obtain rfl := hnew s hs
      · exact ⟨.nil,rfl⟩
      · cases hid
      · cases hid
    have hnotBefore : ∀ s ∈ some (⟨sinceSeq,sinceSeq,0,0,[],[]⟩ : ActiveSubscription),
        sinceSeq ≤ s.lastDeliveredSeq := fun s hs => by
      obtain rfl := hnew s hs
      exact le_rfl
    obtain ⟨hreq,hon⟩ := hbased.requestSubscribe hnotBefore
    have hfirst : Onward c { c with subscription := some ⟨sinceSeq,sinceSeq,0,0,[],[]⟩ } :=
      ⟨le_rfl,fun s hs id hid _ => by obtain rfl := hnew s hs; cases hid⟩
    exact ⟨hreq,hfirst.trans hon⟩

theorem Coherent.unsubscribe (h : Coherent c) (handle : ℕ) :
    Coherent (c.unsubscribe handle) ∧ Onward c (c.unsubscribe handle) := by
  unfold ExecClient.unsubscribe
  split
  · refine ⟨⟨⟨h.open,fun s hs => ?_,nofun,h.frames,nofun,nofun⟩,nofun⟩,.none rfl le_rfl⟩
    rcases List.mem_append.mp hs with hs|hs
    · exact h.past s hs
    · exact h.active s (Option.mem_toList.mp hs)
  · exact ⟨h,.refl c⟩

theorem Coherent.close (h : Coherent c) : Coherent c.close ∧ Onward c c.close := by
  refine ⟨⟨⟨nofun,fun s hs => ?_,nofun,nofun,nofun,nofun⟩,nofun⟩,.none rfl le_rfl⟩
  rcases List.mem_append.mp hs with hs|hs
  · exact h.past s hs
  · exact h.active s (Option.mem_toList.mp hs)

theorem Coherent.timeout (h : Coherent c) (id : ℕ) :
    Coherent (c.timeout id) ∧ Onward c (c.timeout id) := by
  unfold ExecClient.timeout
  split
  · exact ⟨h.narrow h.open rfl rfl rfl (List.Subset.refl _) fun hr => ⟨hr,rfl⟩,.of_eq rfl le_rfl⟩
  · exact ⟨h,.refl c⟩

theorem Coherent.handleResponse (h : Coherent c) (id : ℕ) (outcome : Outcome) :
    Coherent (c.handleResponse id outcome) ∧ Onward c (c.handleResponse id outcome) := by
  unfold ExecClient.handleResponse
  split
  · exact ⟨h.narrow h.open rfl rfl rfl (List.Subset.refl _) fun hr => ⟨hr,rfl⟩,.of_eq rfl le_rfl⟩
  · exact ⟨h,.refl c⟩

theorem Coherent.retry (h : Coherent c) : Coherent c.retry ∧ Onward c c.retry := by
  unfold ExecClient.retry ExecClient.connect
  split
  · split
    · exact ⟨h.narrow h.open rfl rfl rfl (List.Subset.refl _) fun hr => ⟨hr,rfl⟩,.of_eq rfl le_rfl⟩
    · next hclosed =>
      exact ⟨h.narrow (fun _ => by simpa using hclosed) rfl rfl rfl (List.subset_append_right _ _)
        nofun,.of_eq rfl le_rfl⟩
  · exact ⟨h,.refl c⟩

theorem Coherent.onShut (h : Coherent c) : Coherent c.onShut ∧ Onward c c.onShut := by
  unfold ExecClient.onShut
  refine ⟨h.narrow (fun hs => h.open (by simpa using hs)) rfl rfl rfl ?_ ?_,.of_eq rfl le_rfl⟩
  · cases hs : c.socket with
    | none => simp [ExecClient.frames,hs]
    | some s => simp [ExecClient.frames,Socket.frames]
  · cases hs : c.socket <;> simp [receiving]

theorem Coherent.onClose (h : Coherent c) : Coherent c.onClose ∧ Onward c c.onClose := by
  unfold ExecClient.onClose
  split
  · exact ⟨h.narrow nofun rfl rfl rfl (List.subset_append_right _ _) nofun,.of_eq rfl le_rfl⟩
  · exact ⟨h,.refl c⟩

/-- An event is handed on if it comes next, and is dropped otherwise. -/
theorem handleEvent_subscription (c : ExecClient) (event : ExecEvent) :
    ∀ s' ∈ (c.handleEvent event).subscription, ∃ s ∈ c.subscription, (s.InOrder → s'.InOrder) ∧
      s'.requests=s.requests ∧ s.lastDeliveredSeq ≤ s'.lastDeliveredSeq ∧
      (event.seq ≤ s.lastDeliveredSeq+1 → event.seq ≤ s'.lastDeliveredSeq) := by
  intro s' hs'
  obtain ⟨s,hs,rfl⟩ := Option.mem_map.mp hs'
  refine ⟨s,hs,?_⟩
  split
  · next hle => exact ⟨fun h => ⟨h.delivered,h.last⟩,rfl,le_rfl,fun _ => hle⟩
  · split
    · next hle hne => exact ⟨fun h => ⟨h.delivered,h.last⟩,rfl,le_rfl,fun hle' => by
        have : event.seq=s.lastDeliveredSeq+1 := by omega
        exact absurd this hne⟩
    · next hle heq =>
      rw [not_not] at heq
      refine ⟨fun h => ⟨h.delivered.snoc ?_,?_⟩,rfl,?_,fun _ => le_rfl⟩
      · rw [heq,h.last]
      · change event.seq=s.sinceSeq+(s.delivered++[event]).length
        rw [List.length_append,List.length_singleton,heq,h.last]
        omega
      · change s.lastDeliveredSeq ≤ event.seq
        omega

theorem Coherent.handleEvent (h : Coherent c) (event : ExecEvent) :
    Coherent (c.handleEvent event) ∧ Onward c (c.handleEvent event) := by
  have hsub := handleEvent_subscription c event
  refine ⟨⟨⟨h.open,h.past,fun s' hs' => ?_,h.frames,fun s' hs' => ?_,fun s' hs' f hf hid => ?_⟩,
    fun s' hs' hr => ?_⟩,⟨le_rfl,fun s' hs' id hid _ => ?_⟩⟩ <;>
    obtain ⟨s,hs,horder,hreq,hle,-⟩ := hsub s' hs'
  · exact horder (h.active s hs)
  · rw [hreq]
    exact h.requests s hs
  · obtain ⟨n,hn,hle'⟩ := h.behind s hs f hf (hreq ▸ hid)
    exact ⟨n,hn,hle'.trans hle⟩
  · rw [hreq]
    exact h.asked s hs hr
  · exact ⟨s,hs,hreq ▸ hid,hle⟩

/-- The queue goes out on the connection. -/
theorem foldl_write {wire : List Frame} (h : c.socket=some (.ready wire)) (fs : List Frame) :
    ∃ log, fs.foldl write c={ c with socket := some (.ready (wire++fs)), log := log } := by
  induction fs generalizing c wire with
  | nil => exact ⟨c.log,by rw [List.append_nil,← h]; rfl⟩
  | cons f fs ih =>
    have hw : (c.write f).socket=some (.ready (wire++[f])) := by
      unfold write
      rw [h]
      rfl
    obtain ⟨log,hlog⟩ := ih hw
    exact ⟨log,by rw [List.foldl_cons,hlog,List.append_assoc]; rfl⟩

/-- The client after its queue went out on the connection. -/
def flushed (c : ExecClient) (buffered : List Frame) (log : List Note) : ExecClient :=
  { c with socket := some (.ready (buffered++c.writeQueue)), writeQueue := [], log := log }

/-- When the socket connects, what was kept goes out, and the subscription is asked for again from its
last number on. -/
theorem onConnect_eq {buffered : List Frame} (h : c.socket=some (.connecting buffered)) :
    ∃ log, c.onConnect=match c.subscription with
      | some s => (c.flushed buffered log).requestSubscribe s.lastDeliveredSeq
      | none => c.flushed buffered log := by
  obtain ⟨log,hlog⟩ := foldl_write (c := { c with socket := some (.ready buffered), writeQueue := [] })
    rfl c.writeQueue
  change _=c.flushed buffered log at hlog
  refine ⟨log,?_⟩
  unfold ExecClient.onConnect
  simp only [h,hlog]
  rfl

/-- Nothing happens on a socket that does not connect. -/
theorem onConnect_of_not_connecting (h : ∀ buffered, c.socket ≠ some (.connecting buffered)) :
    c.onConnect=c := by
  unfold ExecClient.onConnect
  split
  · next hs => exact absurd hs (h _)
  · rfl

theorem Based.flushed (h : Based c) {buffered : List Frame} (hs : c.socket=some (.connecting buffered))
    (log : List Note) : Based (c.flushed buffered log) := by
  have hframes : ∀ f ∈ (c.flushed buffered log).frames, f ∈ c.frames := fun f hf => by
    unfold ExecClient.frames ExecClient.flushed at hf
    unfold ExecClient.frames
    rw [hs]
    simpa [Socket.frames] using hf
  exact ⟨fun _ => h.open (by rw [hs]; rfl),h.past,h.active,fun f hf => h.frames f (hframes f hf),h.requests,
    fun s hs' f hf => h.behind s hs' f (hframes f hf)⟩

theorem Coherent.onConnect (h : Coherent c) : Coherent c.onConnect ∧ Onward c c.onConnect := by
  by_cases hs : ∃ buffered, c.socket=some (.connecting buffered)
  · obtain ⟨buffered,hs⟩ := hs
    obtain ⟨log,hcon⟩ := onConnect_eq hs
    have hbased := h.toBased.flushed hs log
    have hon : Onward c (c.flushed buffered log) := .of_eq rfl le_rfl
    rw [hcon]
    cases hsub : c.subscription with
    | none => exact ⟨⟨hbased,fun s hs' => by cases hsub.symm.trans hs'⟩,hon⟩
    | some s =>
      have hnotBefore : ∀ s' ∈ (c.flushed buffered log).subscription,
          s.lastDeliveredSeq ≤ s'.lastDeliveredSeq := fun s' hs' => by
        cases hsub.symm.trans hs'
        exact le_rfl
      obtain ⟨hreq,hon'⟩ := hbased.requestSubscribe hnotBefore
      exact ⟨hreq,hon.trans hon'⟩
  · rw [onConnect_of_not_connecting fun buffered hb => hs ⟨buffered,hb⟩]
    exact ⟨h,.refl c⟩

/-! The replays of the server. -/

/-- The replays of the subscription's requests are no further than the subscription. -/
structure Streams (w : World) : Prop where
  client : Coherent w.client
  replays : ∀ r ∈ w.replays, r.request<w.client.nextId
  behind : ∀ s ∈ w.client.subscription, ∀ r ∈ w.replays, r.request ∈ s.requests →
    r.position ≤ s.lastDeliveredSeq

/-- The client moves, and the replays stay or end. -/
theorem Streams.client_step {w : World} (h : Streams w) {c' : ExecClient}
    (hc : Coherent c' ∧ Onward w.client c') {rs : List Replay} (hrs : rs ⊆ w.replays) : Streams ⟨c',rs⟩ := by
  refine ⟨hc.1,fun r hr => (h.replays r (hrs hr)).trans_le hc.2.nextId,fun s' hs' r hr hid => ?_⟩
  obtain ⟨s,hs,hid',hle⟩ := hc.2.requests s' hs' _ hid (h.replays r (hrs hr))
  exact (h.behind s hs r (hrs hr) hid').trans hle

theorem Streams.serve {w : World} (h : Streams w) (position : ℕ) : Streams (w.serve position) := by
  unfold World.serve
  split
  · next id sinceSeq hf =>
    have hframe := wire_subset (List.mem_of_getElem? hf)
    refine ⟨h.client,fun r hr => ?_,fun s hs r hr hid => ?_⟩
    · rcases List.mem_append.mp hr with hr|hr
      · exact h.replays r hr
      · cases List.mem_singleton.mp hr
        exact h.client.frames _ hframe
    · rcases List.mem_append.mp hr with hr|hr
      · exact h.behind s hs r hr hid
      · cases List.mem_singleton.mp hr
        obtain ⟨n,hn,hle⟩ := h.client.behind s hs _ hframe hid
        cases hn
        exact hle
  · exact h

theorem Streams.notify {w : World} (h : Streams w) (replay : ℕ) (event : ExecEvent) :
    Streams (w.notify replay event) := by
  unfold World.notify
  split
  · next r hr =>
    split
    · next hnext =>
      have hmem := List.mem_of_getElem? hr
      obtain ⟨hcoh,hon⟩ := h.client.handleEvent event
      refine ⟨hcoh,fun r' hr' => ?_,fun s' hs' r' hr' hid => ?_⟩
      · rcases List.mem_or_eq_of_mem_set hr' with hr'|rfl
        · exact h.replays r' hr'
        · exact h.replays r hmem
      · obtain ⟨s,hs,-,hreq,hle,hnew⟩ := handleEvent_subscription w.client event s' hs'
        rw [hreq] at hid
        rcases List.mem_or_eq_of_mem_set hr' with hr'|rfl
        · exact (h.behind s hs r' hr' hid).trans hle
        · -- the event comes next, or was handed on before
          have hpos := h.behind s hs r hmem hid
          exact hnew (by omega)
    · exact h
  · exact h

theorem Streams.step {w : World} (h : Streams w) (i : Incident) : Streams (w.step i) := by
  cases i with
  | call method timeoutMs =>
    exact h.client_step ⟨h.client.call _ _,onward_call _ _ _⟩ (List.Subset.refl _)
  | subscribe sinceSeq => exact h.client_step (h.client.subscribe sinceSeq) (List.Subset.refl _)
  | unsubscribe handle => exact h.client_step (h.client.unsubscribe handle) (List.Subset.refl _)
  | close => exact h.client_step h.client.close (List.nil_subset _)
  | timeout id => exact h.client_step (h.client.timeout id) (List.Subset.refl _)
  | retry => exact h.client_step h.client.retry (List.Subset.refl _)
  | connect => exact h.client_step h.client.onConnect (List.Subset.refl _)
  | shut => exact h.client_step h.client.onShut (List.Subset.refl _)
  | closed => exact h.client_step h.client.onClose (List.nil_subset _)
  | respond id ok =>
    change Streams (if _ then _ else _)
    split
    · exact h.client_step (h.client.handleResponse id _) (List.Subset.refl _)
    · exact h
  | serve position => exact h.serve position
  | notify replay event => exact h.notify replay event

theorem Streams.start : Streams {} :=
  ⟨⟨⟨fun _ => rfl,nofun,nofun,nofun,nofun,nofun⟩,nofun⟩,nofun,nofun⟩

/-- Each subscription has handed on consecutive events from its start; of the running one, no replay that
was asked for is further, and on a connection the server has been asked from no later than it is. -/
structure Delivers (w : World) : Prop where
  handed : ∀ s ∈ w.client.past++w.client.subscription.toList,
    Consecutive ExecEvent.seq s.sinceSeq s.delivered
  caught : ∀ s ∈ w.client.subscription, ∀ r ∈ w.replays, r.request ∈ s.requests →
    r.position ≤ s.sinceSeq+s.delivered.length
  asked : ∀ s ∈ w.client.subscription, w.client.receiving=true → ∃ f ∈ w.client.wire, f.id ∈ s.requests ∧
    ∃ n, f.method=.eventsSubscribe n ∧ n ≤ s.sinceSeq+s.delivered.length

/-- When a socket connects, the server is asked for what comes after the last event that was handed on. -/
def Resumes (w : World) (i : Incident) : Prop :=
  i=.connect → ∀ buffered, w.client.socket=some (.connecting buffered) → ∀ s ∈ w.client.subscription,
    (w.step i).client.receiving=true ∧
      ⟨w.client.nextId,.eventsSubscribe (s.sinceSeq+s.delivered.length)⟩ ∈ (w.step i).client.wire

theorem Streams.delivers {w : World} (h : Streams w) : Delivers w := by
  refine ⟨fun s hs => ?_,fun s hs r hr hid => ?_,fun s hs hr => ?_⟩
  · rcases List.mem_append.mp hs with hs|hs
    · exact (h.client.past s hs).delivered
    · exact (h.client.active s (Option.mem_toList.mp hs)).delivered
  · rw [← (h.client.active s hs).last]
    exact h.behind s hs r hr hid
  · obtain ⟨f,hf,hid⟩ := h.client.asked s hs hr
    rw [← (h.client.active s hs).last]
    exact ⟨f,hf,hid,h.client.behind s hs f (wire_subset hf) hid⟩

theorem Streams.resumes {w : World} (h : Streams w) (i : Incident) : Resumes w i := by
  rintro rfl buffered hsock s hs
  obtain ⟨log,hcon⟩ := onConnect_eq hsock
  rw [show w.client.subscription=some s from hs] at hcon
  change w.client.onConnect=(w.client.flushed buffered log).requestSubscribe s.lastDeliveredSeq at hcon
  have hopen : (w.client.flushed buffered log).closed=false := h.client.open (by rw [hsock]; rfl)
  obtain ⟨d,-,-,hrec,-,hwire,-,hreq⟩ := requestSubscribe_open hopen s.lastDeliveredSeq
  change w.client.onConnect.receiving=true ∧ _ ∈ w.client.onConnect.wire
  rw [hcon,hreq,← (h.client.active s hs).last]
  exact ⟨hrec,hwire rfl⟩

/-- In every run of the client and the replays on its connections each subscription hands on just the
events after its start, one after the other, all that the replays it asked for have sent; and every
connection asks for the events after the last one. -/
theorem stream_exactly_once (is : List Incident) :
    Throughout World.step (fun w i => Delivers w ∧ Resumes w i) {} is ∧
      Delivers (run World.step {} is) := by
  have hall : Throughout World.step (fun _ _ => True) ({} : World) is := throughout_of_forall fun _ _ => trivial
  exact ⟨throughout_of_invariant (I := Streams) (fun w i h _ => h.step i)
      (fun w i h _ => ⟨h.delivers,h.resumes i⟩) .start hall,
    (run_invariant (I := Streams) (fun w i h _ => h.step i) .start hall).delivers⟩

def numbered (n : ℕ) : ExecEvent := ⟨n,.haltChanged,0,none,none,none,[]⟩

/-- Two replays at once, a disconnect and one more replay. -/
example : ((run World.step {} [.subscribe 0,.connect,.serve 0,.serve 1,.notify 0 (numbered 1),
    .notify 1 (numbered 1),.notify 1 (numbered 2),.notify 0 (numbered 2),.closed,.retry,.connect,.serve 0,
    .notify 0 (numbered 3)]).client.subscription.map fun s =>
      (s.delivered.map ExecEvent.seq,s.duplicates,s.outOfOrder))=some ([1,2,3],2,0) := by
  decide

end TradeGate.ExecClient
