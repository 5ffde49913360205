import Recipe.Proofs.Workspace.Run
import Recipe.Workspace.Analyzer

/-!
# A pass finds its own handle

An analyzer is a workspace in which a pass is named by its channel (`Analyzer.toWorkspace`). A channel is
released as soon as no slot holds its handle, and a handle that is in a slot is in the slot of its pass,
with the count of its pass (`Analyzer.Sound`). So a pass is not cancelled if and only if the slot of its
document holds its handle (`isCancelled_eq_false_iff`): then it is the pass that was started last for the
document, and the count by which it takes its handle off is its own. That is why a pass need not ask again
when its window has ended, and every event does in an analyzer what it does in the workspace
(`Session.toSession_step`).
-/

namespace Recipe

/-- A pass by its document and its channel. -/
def DiagnosticPass.toPass (p : DiagnosticPass) : Pass :=
  ⟨p.uri, p.cancelled⟩

/-- The document of a slot and the channel of its pending pass, once there is a document. -/
def DocumentSlot.toSlot? (slot : DocumentSlot) : Option Slot :=
  slot.document?.map fun d => ⟨d, slot.pending?.map PendingPass.cancel⟩

namespace Analyzer

/-- The documents of an analyzer, with passes named by their channels. -/
def toWorkspace (a : Analyzer) : Workspace where
  limit? := a.limit?
  debounce := a.debounce
  slots := a.slots.filterMap DocumentSlot.toSlot?
  nextPass := a.nextChannel

/-- The handle in the slot of a uri. -/
def handle? (a : Analyzer) (uri : Uri) : Option PendingPass :=
  (a.slots.get? uri).bind DocumentSlot.pending?

/-! ## Handles -/

/-- Where handles are: a released channel is one whose handle is nowhere, and each of the passes `ps`
has its handle in the slot of its document, beside its count, or nowhere. -/
structure Sound (a : Analyzer) (ps : List DiagnosticPass) : Prop where
  documented : ∀ uri h, a.handle? uri = some h → ∃ d, a.document? uri = some d
  fresh : ∀ uri h, a.handle? uri = some h → h.cancel < a.nextChannel
  unique : ∀ u v h k, a.handle? u = some h → a.handle? v = some k → h.cancel = k.cancel → u = v
  released : ∀ c, c ∈ a.released ↔
    c < a.nextChannel ∧ ∀ uri h, a.handle? uri = some h → h.cancel ≠ c
  made : ∀ p ∈ ps, p.cancelled < a.nextChannel
  window : ∀ p ∈ ps, p.debounce = a.debounce
  own : ∀ p ∈ ps, ∀ uri h, a.handle? uri = some h → h.cancel = p.cancelled →
    uri = p.uri ∧ h.generation = p.generation

theorem sound_empty (limit? : Option Nat) (debounce : Nat) : (empty limit? debounce).Sound [] where
  documented _ _ h := by cases h
  fresh _ _ h := by cases h
  unique _ _ _ _ h := by cases h
  released c := by simp [empty]
  made p hp := by cases hp
  window p hp := by cases hp
  own p hp := by cases hp

variable {a b : Analyzer} {ps qs : List DiagnosticPass}

theorem Sound.subset (h : a.Sound ps) (hq : qs ⊆ ps) : a.Sound qs :=
  { h with
    made := fun p hp => h.made p (hq hp)
    window := fun p hp => h.window p (hq hp)
    own := fun p hp => h.own p (hq hp) }

/-- A handle is taken off its slot, and its channel is released. -/
theorem Sound.takeOff (h : a.Sound ps) (uri : Uri)
    (hhandle : ∀ u, b.handle? u = if u = uri then none else a.handle? u)
    (hdocument : ∀ u, u ≠ uri → b.document? u = a.document? u)
    (hreleased : ∀ c, c ∈ b.released ↔ c ∈ a.released ∨ ∃ k, a.handle? uri = some k ∧ k.cancel = c)
    (hnext : b.nextChannel = a.nextChannel) (hwindow : b.debounce = a.debounce) : b.Sound ps := by
  have hkept : ∀ u k, b.handle? u = some k ↔ u ≠ uri ∧ a.handle? u = some k := by
    intro u k
    rw [hhandle]
    split
    · simp_all
    · simp_all
  constructor
  · intro u k hk
    obtain ⟨hu, hk⟩ := (hkept u k).1 hk
    rw [hdocument u hu]
    exact h.documented u k hk
  · intro u k hk
    rw [hnext]
    exact h.fresh u k ((hkept u k).1 hk).2
  · intro u v k l hk hl
    exact h.unique u v k l ((hkept u k).1 hk).2 ((hkept v l).1 hl).2
  · intro c
    rw [hreleased, h.released, hnext]
    constructor
    · rintro (⟨hc, hnone⟩ | ⟨k, hk, rfl⟩)
      · exact ⟨hc, fun u k hk => hnone u k ((hkept u k).1 hk).2⟩
      · refine ⟨h.fresh uri k hk, fun u l hl he => ?_⟩
        obtain ⟨hu, hl⟩ := (hkept u l).1 hl
        exact hu (h.unique u uri l k hl hk he)
    · rintro ⟨hc, hnone⟩
      by_cases hin : ∃ k, a.handle? uri = some k ∧ k.cancel = c
      · exact .inr hin
      · refine .inl ⟨hc, fun u k hk he => ?_⟩
        by_cases hu : u = uri
        · exact hin ⟨k, hu ▸ hk, he⟩
        · exact hnone u k ((hkept u k).2 ⟨hu, hk⟩) he
  · rw [hnext]
    exact h.made
  · rw [hwindow]
    exact h.window
  · intro p hp u k hk
    exact h.own p hp u k ((hkept u k).1 hk).2

/-- The handle of a pass with a new channel is put in a slot that has none. -/
theorem Sound.putIn (h : a.Sound ps) {p : DiagnosticPass} (hchannel : p.cancelled = a.nextChannel)
    (hp : p.debounce = a.debounce) (hnone : a.handle? p.uri = none)
    (hhandle : ∀ u, b.handle? u = if u = p.uri then some ⟨p.generation, p.cancelled⟩ else a.handle? u)
    (hdocument : ∀ u, u ≠ p.uri → b.document? u = a.document? u)
    (hself : ∃ d, b.document? p.uri = some d) (hreleased : ∀ c, c ∈ b.released ↔ c ∈ a.released)
    (hnext : b.nextChannel = a.nextChannel + 1) (hwindow : b.debounce = a.debounce) :
    b.Sound (p :: ps) := by
  have hcases : ∀ u k, b.handle? u = some k →
      u = p.uri ∧ k = ⟨p.generation, p.cancelled⟩ ∨ u ≠ p.uri ∧ a.handle? u = some k := by
    intro u k hk
    rw [hhandle] at hk
    split at hk
    · exact .inl ⟨‹_›, (Option.some.inj hk).symm⟩
    · exact .inr ⟨‹_›, hk⟩
  have hold : ∀ u k, a.handle? u = some k → k.cancel ≠ p.cancelled := fun u k hk =>
    Nat.ne_of_lt (hchannel ▸ h.fresh u k hk)
  constructor
  · intro u k hk
    rcases hcases u k hk with ⟨rfl, -⟩ | ⟨hu, hk⟩
    · exact hself
    · rw [hdocument u hu]
      exact h.documented u k hk
  · intro u k hk
    rcases hcases u k hk with ⟨-, rfl⟩ | ⟨-, hk⟩
    · show p.cancelled < b.nextChannel
      omega
    · have := h.fresh u k hk
      omega
  · intro u v k l hk hl he
    rcases hcases u k hk with ⟨rfl, rfl⟩ | ⟨-, hk⟩ <;> rcases hcases v l hl with ⟨rfl, rfl⟩ | ⟨-, hl⟩
    · rfl
    · exact absurd he.symm (hold v l hl)
    · exact absurd he (hold u k hk)
    · exact h.unique u v k l hk hl he
  · intro c
    rw [hreleased, h.released, hnext]
    constructor
    · rintro ⟨hc, hout⟩
      refine ⟨Nat.lt_succ_of_lt hc, fun u k hk => ?_⟩
      rcases hcases u k hk with ⟨-, rfl⟩ | ⟨-, hk⟩
      · show p.cancelled ≠ c
        omega
      · exact hout u k hk
    · rintro ⟨hc, hout⟩
      have hne : p.cancelled ≠ c := hout p.uri _ ((hhandle p.uri).trans (if_pos rfl))
      refine ⟨by omega, fun u k hk => hout u k ?_⟩
      rw [hhandle, if_neg fun hu => by rw [hu, hnone] at hk; cases hk]
      exact hk
  · intro q hq
    rcases List.mem_cons.1 hq with rfl | hq
    · omega
    · have := h.made q hq
      omega
  · intro q hq
    rcases List.mem_cons.1 hq with rfl | hq
    · exact hp.trans hwindow.symm
    · exact (h.window q hq).trans hwindow.symm
  · intro q hq u k hk he
    rcases List.mem_cons.1 hq with rfl | hq <;> rcases hcases u k hk with ⟨rfl, rfl⟩ | ⟨-, hk⟩
    · exact ⟨rfl, rfl⟩
    · exact absurd he (hold u k hk)
    · have := h.made q hq
      exact absurd (he.symm.trans hchannel) (Nat.ne_of_lt this)
    · exact h.own q hq u k hk he

/-- A pass is cancelled unless the slot of its document holds its handle. -/
theorem isCancelled_eq_false_iff (h : a.Sound ps) {p : DiagnosticPass} (hp : p ∈ ps) :
    a.isCancelled p = false ↔ a.handle? p.uri = some ⟨p.generation, p.cancelled⟩ := by
  rw [isCancelled, decide_eq_false_iff_not, h.released]
  constructor
  · intro hn
    have hex : ∃ uri k, a.handle? uri = some k ∧ k.cancel = p.cancelled := by
      by_contra hno
      exact hn ⟨h.made p hp, fun uri k hk he => hno ⟨uri, k, hk, he⟩⟩
    obtain ⟨uri, k, hk, he⟩ := hex
    obtain ⟨rfl, hg⟩ := h.own p hp uri k hk he
    rw [hk, ← hg, ← he]
  · rintro hk ⟨-, hnone⟩
    exact hnone p.uri _ hk rfl

/-! ## As a workspace -/

theorem get?_toWorkspace (a : Analyzer) (uri : Uri) :
    a.toWorkspace.slots.get? uri = (a.slots.get? uri).bind DocumentSlot.toSlot? :=
  Table.get?_filterMap _ _ _

theorem isCurrent_toWorkspace (h : a.Sound ps) {p : DiagnosticPass} (hp : p ∈ ps) :
    a.toWorkspace.isCurrent p.toPass = !a.isCancelled p := by
  have hpending : ∀ uri, (a.toWorkspace.slots.get? uri).bind Slot.pending?
      = (a.handle? uri).map PendingPass.cancel := by
    intro uri
    have hd := h.documented uri
    rw [get?_toWorkspace]
    unfold handle? document? at *
    cases hs : a.slots.get? uri with
    | none => rfl
    | some slot =>
      rw [hs] at hd
      unfold DocumentSlot.toSlot?
      cases hk : slot.pending? with
      | none => cases slot.document? <;> simp [hk]
      | some k =>
        obtain ⟨d, hd⟩ := hd k hk
        rw [Option.bind_some] at hd
        simp [hd, hk]
  rw [Workspace.isCurrent_eq, Bool.eq_iff_iff, beq_iff_eq, Bool.not_eq_true', isCancelled_eq_false_iff h hp]
  rw [hpending, Option.map_eq_some_iff]
  constructor
  · rintro ⟨k, hk, he⟩
    obtain ⟨-, hg⟩ := h.own p hp p.uri k hk he
    exact hk.trans (by rw [← hg, ← (show k.cancel = p.cancelled from he)])
  · intro hk
    exact ⟨_, hk, rfl⟩

@[simp] theorem slots_release (a : Analyzer) (h : Option PendingPass) : (a.release h).slots = a.slots := by
  cases h <;> rfl

@[simp] theorem nextChannel_release (a : Analyzer) (h : Option PendingPass) :
    (a.release h).nextChannel = a.nextChannel := by
  cases h <;> rfl

@[simp] theorem debounce_release (a : Analyzer) (h : Option PendingPass) :
    (a.release h).debounce = a.debounce := by
  cases h <;> rfl

theorem toWorkspace_release (a : Analyzer) (h : Option PendingPass) :
    (a.release h).toWorkspace = a.toWorkspace := by
  cases h <;> rfl

theorem mem_released_release (a : Analyzer) (h : Option PendingPass) (c : Nat) :
    c ∈ (a.release h).released ↔ c ∈ a.released ∨ ∃ k, h = some k ∧ k.cancel = c := by
  cases h with
  | none => simp [release]
  | some k =>
    simp only [release, List.mem_cons, Option.some.injEq, exists_eq_left', or_comm, eq_comm]

/-! ## Closing -/

theorem toWorkspace_close (a : Analyzer) (uri : Uri) :
    (a.close uri).toWorkspace = a.toWorkspace.close uri := by
  rw [close, toWorkspace_release]
  unfold toWorkspace Workspace.close
  congr 1
  exact Table.filterMap_erase _ _ _

theorem sound_close (h : a.Sound ps) (uri : Uri) : (a.close uri).Sound ps := by
  refine h.takeOff uri (fun u => ?_) (fun u hu => ?_) (fun c => ?_) ?_ ?_
  · simp only [close, handle?, slots_release, Table.get?_erase]
    split <;> rfl
  · simp only [close, document?, slots_release, Table.get?_erase, if_neg hu]
  · exact mem_released_release _ _ c
  · exact nextChannel_release _ _
  · exact debounce_release _ _

/-! ## Updates -/

/-- The analyzer after an update. -/
def replaced (a : Analyzer) (limit : Nat) (uri : Uri) (source : String) : Analyzer :=
  let generation := ((a.slots.get? uri).getD .fresh).generation + 1
  { a with
    slots := a.slots.insert uri
      ⟨generation, some (.read limit uri source), some ⟨generation, a.nextChannel⟩⟩
    nextChannel := a.nextChannel + 1 }.release (a.handle? uri)

/-- The pass of an update. -/
def nextPass (a : Analyzer) (uri : Uri) : DiagnosticPass :=
  ⟨uri, ((a.slots.get? uri).getD .fresh).generation + 1, a.debounce, a.nextChannel⟩

/-- An update always has a pass, since no other one can start in between. -/
theorem update_eq {limit : Nat} (h : a.limit? = some limit) (uri : Uri) (source : String) :
    a.update uri source = .ok (a.replaced limit uri source, some (a.nextPass uri)) := by
  have hpending : ((a.slots.get? uri).getD .fresh).pending? = a.handle? uri := by
    unfold handle?
    cases a.slots.get? uri <;> rfl
  unfold update
  rw [h]
  simp only [beginPass, install, Table.get?_insert, if_true, Option.bind_some, Table.insert_insert,
    hpending]
  rfl

theorem toWorkspace_replaced (a : Analyzer) (limit : Nat) (uri : Uri) (source : String) :
    (a.replaced limit uri source).toWorkspace = a.toWorkspace.install limit uri source := by
  rw [replaced, toWorkspace_release]
  unfold toWorkspace Workspace.install
  congr 1
  refine Table.filterMap_insert ?_ a.slots uri
  rfl

theorem sound_replaced (h : a.Sound ps) (limit : Nat) (uri : Uri) (source : String) :
    (a.replaced limit uri source).Sound (a.nextPass uri :: ps) := by
  -- The old handle is used as if the document were closed, and the new one takes its place.
  refine (sound_close h uri).putIn (p := a.nextPass uri) ?_ ?_ ?_ (fun u => ?_) (fun u hu => ?_)
    ⟨.read limit uri source, ?_⟩ (fun c => ?_) ?_ ?_
  · simp [close, nextPass]
  · simp [close, nextPass]
  · simp [close, handle?, nextPass, Table.get?_erase]
  · simp only [replaced, close, handle?, slots_release, Table.get?_insert, Table.get?_erase, nextPass]
    split <;> rfl
  · have hne : u ≠ uri := hu
    simp only [replaced, close, document?, slots_release, Table.get?_insert, Table.get?_erase, if_neg hne]
  · simp [replaced, document?, nextPass, Table.get?_insert]
  · rw [replaced, close, mem_released_release, mem_released_release]
    rfl
  · simp [replaced, close]
  · simp [replaced, close]

/-! ## The end of a pass -/

/-- What a pass does when its window has ended and the slot of its document holds its handle. -/
theorem resume_of_handle? {p : DiagnosticPass} {slot : DocumentSlot}
    (hs : a.slots.get? p.uri = some slot) (hk : slot.pending? = some ⟨p.generation, p.cancelled⟩) :
    a.resume p = ({ a with slots := a.slots.insert p.uri { slot with pending? := none } }.release
      (a.handle? p.uri), slot.document?.map (·.tree.diagnostics)) := by
  have hany : (slot.pending?.any fun k => k.generation == p.generation) = true := by
    rw [hk]
    exact beq_self_eq_true _
  have hhandle : a.handle? p.uri = slot.pending? := by rw [handle?, hs, Option.bind_some]
  unfold resume
  rw [hs, hhandle]
  simp only [hany, if_true]

/-- A pass that is not cancelled when its window has ended takes off its own handle, and gives the
diagnostics of the document that was put beside it. -/
theorem resume_spec (h : a.Sound ps) {p : DiagnosticPass} (hp : p ∈ ps)
    (hc : a.isCancelled p = false) :
    (a.resume p).1.Sound ps ∧
      a.toWorkspace.finish p.toPass = ((a.resume p).1.toWorkspace, (a.resume p).2) := by
  have hk := (isCancelled_eq_false_iff h hp).1 hc
  obtain ⟨slot, hs, hpending⟩ := Option.bind_eq_some_iff.1 hk
  obtain ⟨d, hd⟩ := h.documented p.uri _ hk
  rw [document?, hs, Option.bind_some] at hd
  rw [resume_of_handle? hs hpending]
  constructor
  · refine h.takeOff p.uri (fun u => ?_) (fun u hu => ?_) (fun c => ?_) ?_ ?_
    · simp only [handle?, slots_release, Table.get?_insert]
      split <;> rfl
    · simp only [document?, slots_release, Table.get?_insert, if_neg hu]
    · exact mem_released_release _ _ c
    · exact nextChannel_release _ _
    · exact debounce_release _ _
  · have hslot : a.toWorkspace.slots.get? p.uri = some ⟨d, some p.cancelled⟩ := by
      rw [get?_toWorkspace, hs, Option.bind_some, DocumentSlot.toSlot?, hd, hpending]
      rfl
    unfold Workspace.finish
    simp only [DiagnosticPass.toPass, hslot, if_true, toWorkspace_release, hd, Option.map_some]
    congr 1
    unfold toWorkspace
    congr 1
    refine (Table.filterMap_insert ?_ a.slots p.uri).symm
    simp [DocumentSlot.toSlot?]

/-! ## Waiting -/

/-- A wait for the pass by its channel. -/
def Wait.toWaiting (w : Wait) : Waiting String :=
  ⟨w.pass.toPass, w.due, w.label⟩

/-- The end of a wait for the pass by its channel. -/
def Ended.toFinished (f : Ended) : Finished String :=
  ⟨f.pass.toPass, f.time, f.label, f.diagnostics?⟩

/-- The workspace and its waits after those that are over have ended. -/
def Settled.toSettled (s : Settled) : Recipe.Settled String :=
  ⟨s.analyzer.toWorkspace, s.waiting.map Wait.toWaiting, s.ended.map Ended.toFinished⟩

/-- The waits that are over in an analyzer are those that are over in the workspace. -/
theorem settle_spec (h : a.Sound ps) (now : Nat) {ws : List Wait} (hw : ∀ w ∈ ws, w.pass ∈ ps) :
    (a.settle now ws).analyzer.Sound ps ∧ (a.settle now ws).waiting.Sublist ws ∧
      a.toWorkspace.settle now (ws.map Wait.toWaiting) = (a.settle now ws).toSettled := by
  induction ws generalizing a with
  | nil => exact ⟨h, .slnil, rfl⟩
  | cons w ws ih =>
    have hws : ∀ x ∈ ws, x.pass ∈ ps := fun x hx => hw x (List.mem_cons_of_mem w hx)
    have hcurrent : a.toWorkspace.isCurrent w.toWaiting.pass = !a.isCancelled w.pass :=
      isCurrent_toWorkspace h (hw w List.mem_cons_self)
    rw [List.map_cons, settle, Workspace.settle, hcurrent]
    by_cases hc : a.isCancelled w.pass = true
    · obtain ⟨hsound, hsub, heq⟩ := ih h hws
      simp only [hc, Bool.not_true, Bool.not_false, if_true, heq]
      exact ⟨hsound, hsub.cons w, rfl⟩
    rw [Bool.not_eq_true] at hc
    by_cases hd : w.due ≤ now
    · obtain ⟨hnext, hfinish⟩ := resume_spec h (hw w List.mem_cons_self) hc
      obtain ⟨hsound, hsub, heq⟩ := ih hnext hws
      have hdue : w.toWaiting.due ≤ now := hd
      have hfinish' : a.toWorkspace.finish w.toWaiting.pass = _ := hfinish
      simp only [hc, Bool.not_false, Bool.not_true, Bool.false_eq_true, if_false, if_pos hd, if_pos hdue,
        hfinish', heq]
      exact ⟨hsound, hsub.cons w, rfl⟩
    · obtain ⟨hsound, hsub, heq⟩ := ih h hws
      have hdue : ¬ w.toWaiting.due ≤ now := hd
      simp only [hc, Bool.not_false, Bool.not_true, Bool.false_eq_true, if_false, if_neg hd, if_neg hdue,
        heq]
      exact ⟨hsound, hsub.cons_cons w, rfl⟩

/-! ## Sessions -/

namespace Session

/-- The waits that end with an event. -/
def ended (s : Session) (e : SessionEvent) : List Ended :=
  let t := (s.apply e).1
  (t.analyzer.settle t.now t.waiting).ended

/-- The session after some events. -/
def run (s : Session) (es : List SessionEvent) : Session :=
  es.foldl (fun s e => (s.step e).1) s

/-- The waits that end with one of some events. -/
def endedIn (s : Session) : List SessionEvent → List Ended
  | [] => []
  | e :: es => s.ended e ++ (s.step e).1.endedIn es

/-- The passes that are kept or waited for. -/
def passes (s : Session) : List DiagnosticPass :=
  s.held.values ++ s.waiting.map Wait.pass

/-- When the wait for a pass ends with one of some events, and with which diagnostics. -/
def resultsOf (s : Session) (p : DiagnosticPass) (es : List SessionEvent) :
    List (Nat × Option (List Diagnostic)) :=
  ((s.endedIn es).filter fun f => decide (f.pass = p)).map fun f => (f.time, f.diagnostics?)

/-- The session of the workspace. -/
def toSession (s : Session) : Recipe.Session where
  workspace := s.analyzer.toWorkspace
  now := s.now
  held := s.held.filterMap (some ∘ DiagnosticPass.toPass)
  waiting := s.waiting.map Wait.toWaiting

/-- The passes that are kept or waited for have their handles where they should be. -/
def Sound (s : Session) : Prop :=
  s.analyzer.Sound s.passes

variable {s : Session}

theorem sound_start (limit? : Option Nat) (debounce : Nat) : (start (.empty limit? debounce)).Sound :=
  sound_empty limit? debounce

theorem passes_toSession (s : Session) : s.toSession.passes = s.passes.map DiagnosticPass.toPass := by
  rw [passes, Recipe.Session.passes, toSession, Table.values_filterMap, List.filterMap_eq_map,
    List.map_append, List.map_map, List.map_map]
  rfl

theorem get?_held_toSession (s : Session) (label : String) :
    s.toSession.held.get? label = (s.held.get? label).map DiagnosticPass.toPass := by
  rw [toSession, Table.get?_filterMap, Option.map_eq_bind]

/-- The pass that an event starts. -/
def started (s : Session) : SessionEvent → List DiagnosticPass
  | .analyze _ uri _ => s.analyzer.limit?.toList.map fun _ => s.analyzer.nextPass uri
  | .update _ uri _ => s.analyzer.limit?.toList.map fun _ => s.analyzer.nextPass uri
  | _ => []

theorem update_none (h : s.analyzer.limit? = none) (uri : Uri) (source : String) :
    s.analyzer.update uri source = .error .uninitialized ∧
      s.toSession.workspace.update uri source = .error .uninitialized := by
  have h' : s.toSession.workspace.limit? = none := h
  exact ⟨by rw [update, h], by rw [Workspace.update, h']⟩

theorem update_some {limit : Nat} (h : s.analyzer.limit? = some limit) (uri : Uri) (source : String) :
    s.toSession.workspace.update uri source
      = .ok ((s.analyzer.replaced limit uri source).toWorkspace, (s.analyzer.nextPass uri).toPass) := by
  have h' : s.toSession.workspace.limit? = some limit := h
  rw [Workspace.update_eq h', toWorkspace_replaced]
  rfl

/-- The passes after an event are among the one it starts and those before it. -/
theorem passes_apply (s : Session) (e : SessionEvent) :
    (s.apply e).1.passes ⊆ s.started e ++ s.passes := by
  have herase : ∀ label, (s.held.erase label).values ⊆ s.held.values := fun label =>
    (Table.values_erase_sublist s.held label).subset
  cases e with
  | analyze label uri source =>
    rw [apply, started]
    cases hl : s.analyzer.limit? with
    | none =>
      rw [(update_none hl uri source).1]
      exact List.Subset.refl _
    | some limit =>
      rw [update_eq hl]
      simp only [await, passes, List.map_append]
      grind
  | update label uri source =>
    rw [apply, started]
    cases hl : s.analyzer.limit? with
    | none =>
      rw [(update_none hl uri source).1]
      exact List.Subset.refl _
    | some limit =>
      rw [update_eq hl]
      simp only [passes, Table.values_insert]
      grind
  | wait label =>
    rw [apply]
    cases hp : s.held.get? label with
    | none => exact List.Subset.refl _
    | some p =>
      have hmem := Table.mem_values_of_get? hp
      simp only [await, passes, List.map_append]
      grind
  | drop label =>
    exact List.append_subset.2 ⟨List.Subset.trans (herase label) (List.subset_append_left _ _),
      List.subset_append_right _ _⟩
  | _ => exact List.Subset.refl _

theorem sound_apply (hs : s.Sound) (e : SessionEvent) :
    (s.apply e).1.analyzer.Sound (s.started e ++ s.passes) := by
  cases e with
  | analyze label uri source =>
    rw [apply, started]
    cases hl : s.analyzer.limit? with
    | none =>
      rw [(update_none hl uri source).1]
      exact hs
    | some limit =>
      rw [update_eq hl]
      exact sound_replaced hs limit uri source
  | update label uri source =>
    rw [apply, started]
    cases hl : s.analyzer.limit? with
    | none =>
      rw [(update_none hl uri source).1]
      exact hs
    | some limit =>
      rw [update_eq hl]
      exact sound_replaced hs limit uri source
  | wait label =>
    rw [apply]
    split <;> exact hs
  | setLimit limit => exact { hs with }
  | close uri => exact sound_close hs uri
  | _ => exact hs

/-- What an event asks for is done in an analyzer as in the workspace. -/
theorem toSession_apply (hs : s.Sound) (e : SessionEvent) :
    s.toSession.apply e = ((s.apply e).1.toSession, (s.apply e).2) := by
  cases e with
  | analyze label uri source =>
    rw [apply, Recipe.Session.apply]
    cases hl : s.analyzer.limit? with
    | none =>
      rw [(update_none hl uri source).1, (update_none hl uri source).2]
      rfl
    | some limit =>
      rw [update_eq hl, update_some hl]
      simp only [toSession, await, Recipe.Session.await, List.map_append, toWorkspace_replaced]
      rfl
  | update label uri source =>
    rw [apply, Recipe.Session.apply]
    cases hl : s.analyzer.limit? with
    | none =>
      rw [(update_none hl uri source).1, (update_none hl uri source).2]
    | some limit =>
      rw [update_eq hl, update_some hl]
      simp only [toSession]
      rw [← Table.filterMap_insert (by rfl)]
      rfl
  | wait label =>
    rw [apply, Recipe.Session.apply, get?_held_toSession]
    cases hp : s.held.get? label with
    | none => rfl
    | some p =>
      have hwindow : p.debounce = s.analyzer.debounce :=
        hs.window p (List.mem_append_left _ (Table.mem_values_of_get? hp))
      simp only [toSession, await, Recipe.Session.await, List.map_append, Table.filterMap_erase, hwindow]
      rfl
  | drop label =>
    rw [apply, Recipe.Session.apply, get?_held_toSession, Option.isSome_map]
    simp only [toSession, Table.filterMap_erase]
  | close uri =>
    rw [apply, Recipe.Session.apply]
    simp only [toSession, toWorkspace_close]
  | _ => rfl

/-- The waits that end with an event leave the analyzer sound, and end in the workspace too. -/
theorem settle_apply (hs : s.Sound) (e : SessionEvent) :
    let t := (s.apply e).1
    (t.analyzer.settle t.now t.waiting).analyzer.Sound t.passes ∧
      (t.analyzer.settle t.now t.waiting).waiting.Sublist t.waiting ∧
      t.toSession.workspace.settle t.toSession.now t.toSession.waiting
        = (t.analyzer.settle t.now t.waiting).toSettled :=
  settle_spec ((sound_apply hs e).subset (passes_apply s e)) _ fun _ hw =>
    List.mem_append_right _ (List.mem_map_of_mem hw)

theorem ended_toSession (hs : s.Sound) (e : SessionEvent) :
    s.toSession.ended e = (s.ended e).map Ended.toFinished := by
  obtain ⟨-, -, heq⟩ := settle_apply hs e
  rw [Recipe.Session.ended, toSession_apply hs e]
  exact congrArg Recipe.Settled.finished heq

/-- Every event does in an analyzer what it does in the workspace, and callers are told the same. -/
theorem toSession_step (hs : s.Sound) (e : SessionEvent) :
    s.toSession.step e = ((s.step e).1.toSession, (s.step e).2) := by
  obtain ⟨-, -, heq⟩ := settle_apply hs e
  rw [Recipe.Session.step, toSession_apply hs e]
  simp only [Recipe.Session.settle, heq]
  rw [step]
  simp only [Settled.toSettled, List.map_map]
  rfl

theorem passes_step (hs : s.Sound) (e : SessionEvent) : (s.step e).1.passes ⊆ (s.apply e).1.passes :=
  (((settle_apply hs e).2.1.map Wait.pass).append_left _).subset

theorem sound_step (hs : s.Sound) (e : SessionEvent) : (s.step e).1.Sound :=
  (settle_apply hs e).1.subset (passes_step hs e)

theorem sound_run (hs : s.Sound) (es : List SessionEvent) : (s.run es).Sound := by
  induction es generalizing s with
  | nil => exact hs
  | cons e es ih => exact ih (sound_step hs e)

theorem toSession_run (hs : s.Sound) (es : List SessionEvent) :
    (s.run es).toSession = s.toSession.run es := by
  induction es generalizing s with
  | nil => rfl
  | cons e es ih =>
    rw [Recipe.Session.run_cons, toSession_step hs]
    exact ih (sound_step hs e)

theorem endedIn_toSession (hs : s.Sound) (es : List SessionEvent) :
    s.toSession.endedIn es = (s.endedIn es).map Ended.toFinished := by
  induction es generalizing s with
  | nil => rfl
  | cons e es ih =>
    rw [endedIn, Recipe.Session.endedIn, List.map_append, ended_toSession hs, toSession_step hs,
      ih (sound_step hs e)]

end Session

end Analyzer

end Recipe
