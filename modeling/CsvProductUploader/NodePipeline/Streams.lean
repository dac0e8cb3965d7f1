import CsvProductUploader.NodePipeline.Progress
import CsvProductUploader.NodePipeline.Recovery

/-!
# Which streams hear of the end of their batch

A stream whose initial read found the batch unfinished ends with the terminal event, if its
emitter is still the registered one.  It loses that place for good when another stream
subscribes or ends.

## Main definitions

* `Stream.Waiting` — only an event can end the stream.
* `Tuned` — the step takes no emitter from a waiting stream, and leaves none without one.
* `Inv` — what holds along the runs of such steps.
* `Stranded` — a waiting stream whose emitter is not the registered one.

## Main results

* `inv_step` — one tuned step.
* `end_heard` — along runs of tuned steps, no open stream misses the end of its batch.
* `stranded_of_not_tuned`, `stranded_step` — any other step strands a stream, which then
  waits until its client leaves.
* `second_stream_strands_first` — two streams, the first of which waits for ever.
-/

namespace CsvProductUploader.NodePipeline

open Runs Update

/-- Only an event can end the stream: its initial read has found the batch unfinished. -/
def Stream.Waiting (st : Stream) : Prop :=
  st.ending = none ∧
    (st.read = .done ∨ ∃ b : UploadBatch, st.read = .answered (some b) ∧ b.status.terminal = false)

/-- A stream is completed for a terminal status that it was sent. -/
structure Stream.Sound (st : Stream) : Prop where
  open_ : st.ending = none → st.isCompleted = false
  told : st.ending = some .completed → ∃ data ∈ st.sent, data.status.terminal = true

/-- The answer of the read ends the stream, or what was left of it. -/
def Stream.clears (st : Stream) : Bool :=
  match st.read with
  | .answered (some b) => b.status.terminal && !st.isCompleted
  | .answered none | .failed => st.ending.isNone
  | .issued | .done => false

section
variable {st : Stream} {data : ProgressData}

theorem Stream.sound_new : ({} : Stream).Sound := ⟨fun _ => rfl, nofun⟩

theorem Stream.not_waiting_new : ¬({} : Stream).Waiting := by
  rintro ⟨-, hread | ⟨b, hread, -⟩⟩
  · cases hread
  · cases hread

theorem Stream.Sound.sendProgress (h : st.Sound) : (st.sendProgress data).Sound := by
  constructor
  · simpa using h.open_
  · intro hend
    rw [Stream.ending_sendProgress] at hend
    obtain ⟨data', hmem, hterm⟩ := h.told hend
    refine ⟨data', ?_, hterm⟩
    unfold Stream.sendProgress
    split
    · exact List.mem_append_left _ hmem
    · exact hmem

theorem Stream.Sound.tell (h : st.Sound) : (st.told data).Sound := by
  unfold Stream.told
  split
  · next hc =>
    refine ⟨fun hend => ?_, fun hend => ?_⟩
    · cases hst : st.ending <;> simp [hst] at hend
    · cases hst : st.ending with
      | none =>
        -- an open stream was sent the status just now
        refine ⟨data, ?_, hc.1⟩
        simp [Stream.sendProgress, hst, hc.2]
      | some e =>
        rw [hst] at hend
        exact h.sendProgress.told (by simpa [hst] using hend)
  · exact h.sendProgress

/-- A stream waits on after a status that is not terminal, and not after one that is. -/
theorem Stream.waiting_told (h : st.Sound) (hw : (st.told data).Waiting) :
    st.Waiting ∧ data.status.terminal = false := by
  unfold Stream.told at hw
  split at hw
  · obtain ⟨hend, -⟩ := hw
    cases hst : st.ending <;> simp [hst] at hend
  · next hc =>
    obtain ⟨hend, hread⟩ := hw
    rw [Stream.ending_sendProgress] at hend
    rw [Stream.read_sendProgress] at hread
    refine ⟨⟨hend, hread⟩, ?_⟩
    by_contra hterm
    exact hc ⟨by simpa using hterm, h.open_ hend⟩

/-- An end other than the stream's own tells it nothing. -/
theorem Stream.Sound.end (h : st.Sound) {e : Ending} (he : e ≠ .completed) {r : Read} :
    ({ st with read := r, ending := st.ending <|> some e } : Stream).Sound := by
  refine ⟨fun hend => ?_, fun hend => ?_⟩
  · cases hst : st.ending <;> simp [hst] at hend
  · cases hst : st.ending with
    | none => exact absurd (by simpa [hst] using hend) he
    | some e' => exact h.told (by simpa [hst] using hend)

theorem Stream.not_waiting_end {e : Ending} {r : Read} :
    ¬({ st with read := r, ending := st.ending <|> some e } : Stream).Waiting := by
  rintro ⟨hend, -⟩
  cases hst : st.ending <;> simp [hst] at hend

end

namespace Sse

/-- No stream but `i` waits for an event. -/
def Alone (s : State) (i : ℕ) : Prop :=
  ∀ j st, j ≠ i → s.streams j = some st → ¬st.Waiting

/-- The step takes no emitter out of the registry that another stream waits for, and no read
finds the batch unfinished for a stream whose emitter is not there. -/
def Tuned (s : State) : Label → Prop
  | .subscribe i | .disconnect i => Alone s i
  | .resume i => (∃ st, s.streams i = some st ∧ st.clears = true) → Alone s i
  | .answer i => s.proc.world.batch.status.terminal = true ∨ s.emitter = some i ∨
      ∃ st e, s.streams i = some st ∧ st.ending = some e
  | _ => True

/-- The attempt is over but for its file. -/
def ended : Pc → Bool
  | .cleaning _ | .returned | .thrown _ | .died => true
  | _ => false

/-- What holds along runs of such steps. -/
structure Inv (s : State) : Prop where
  sound : ∀ i st, s.streams i = some st → st.Sound
  /-- A waiting stream has the registered emitter. -/
  registered : ∀ i st, s.streams i = some st → st.Waiting → s.emitter = some i
  /-- After the terminal event nobody waits. -/
  heard : s.announced = true → ∀ i st, s.streams i = some st → ¬st.Waiting
  stored : s.announced = true → s.proc.world.batch.status.terminal = true ∧ ended s.proc.pc = true

section
variable {job : Job} {s s' : State} {a : Label} {i : ℕ} {st : Stream} {data : ProgressData}
  {p : NodePipeline.State} {e : Option ℕ}

/-! ### The streams -/

/-- Who has the registered emitter is alone in waiting. -/
theorem Inv.alone (hI : Inv s) (he : s.emitter = some i) : Alone s i := by
  intro j st hj hst hw
  have hreg := hI.registered j st hst hw
  rw [he] at hreg
  exact hj (Option.some.inj hreg).symm

/-- Without an emitter nobody waits. -/
theorem Inv.not_waiting (hI : Inv s) (hst : s.streams i = some st) (he : s.emitter ≠ some i) :
    ¬st.Waiting := fun hw => he (hI.registered i st hst hw)

/-- One stream changes, and the registry with it. -/
theorem Inv.put (hI : Inv s) (hsound : st.Sound)
    (hself : st.Waiting → e = some i ∧ s.announced = false)
    (hothers : e = s.emitter ∨ Alone s i) : Inv { s.put i st with emitter := e } where
  sound := forall_update_some rfl hsound fun j st' _ => hI.sound j st'
  registered := by
    refine forall_update_some rfl (fun hw => (hself hw).1) fun j st' hj hst' hw => ?_
    rcases hothers with he | halone
    · exact he ▸ hI.registered j st' hst' hw
    · exact absurd hw (halone j st' hj hst')
  heard := by
    intro (hannounced : s.announced = true)
    refine forall_update_some rfl (fun hw => ?_) fun j st' _ => hI.heard hannounced j st'
    rw [(hself hw).2] at hannounced
    cases hannounced
  stored := hI.stored

/-- A stream that still waits had the emitter, and the terminal event is yet to come. -/
theorem Inv.still (hI : Inv s) (hst : s.streams i = some st) (hw : st.Waiting) :
    s.emitter = some i ∧ s.announced = false := by
  refine ⟨hI.registered i st hst hw, ?_⟩
  by_contra hannounced
  exact hI.heard (by simpa using hannounced) i st hst hw

theorem Inv.end (hI : Inv s) (hst : s.streams i = some st) {r : Read} {x : Ending}
    (hx : x ≠ .completed) (halone : st.ending = none → Alone s i) :
    Inv (s.close i { st with read := r } x) := by
  rw [close_eq]
  refine hI.put ((hI.sound i st hst).end hx) (fun hw => absurd hw Stream.not_waiting_end) ?_
  dsimp only
  split
  · next hend => exact .inr (halone hend)
  · exact .inl rfl

/-- A stream is told of a status. -/
theorem Inv.tell (hI : Inv s) {st' : Stream} (hst : s.streams i = some st)
    (hsound : st'.Sound) (hsame : st'.Waiting → data.status.terminal = false → st.Waiting)
    (halone : data.status.terminal = true → st'.isCompleted = false → Alone s i) :
    Inv (s.tell i st' data) := by
  rw [tell_eq]
  refine hI.put hsound.tell (fun hw => ?_) ?_
  · obtain ⟨hw', hterm⟩ := Stream.waiting_told hsound hw
    rw [if_neg (by simp [hterm])]
    exact hI.still hst (hsame hw' hterm)
  · split
    · next hc => exact .inr (halone hc.1 hc.2)
    · exact .inl rfl

/-- The event of an attempt reaches whoever waits; a terminal one leaves nobody waiting. -/
theorem Inv.emitProgress (hI : Inv s) (data : ProgressData) :
    Inv (s.emitProgress data) ∧ (data.status.terminal = true →
      ∀ j st, (s.emitProgress data).streams j = some st → ¬st.Waiting) := by
  unfold State.emitProgress
  split
  · next he => exact ⟨hI, fun _ j st hst => hI.not_waiting hst (by simp [he])⟩
  · next i he =>
    -- The emitter belongs to stream `i`; no other stream waits.
    have halone := hI.alone he
    split
    · next hnone =>
      refine ⟨hI, fun _ j st hst => halone j st ?_ hst⟩
      rintro rfl
      rw [hnone] at hst
      cases hst
    · next st hst =>
      split
      · have hsound := hI.sound i st hst
        refine ⟨hI.tell hst hsound (fun hw _ => hw) fun _ _ => halone, fun hterm => ?_⟩
        rw [tell_eq]
        refine forall_update_some rfl (fun hw => ?_) halone
        rw [(Stream.waiting_told hsound hw).2] at hterm
        cases hterm
      · next hend =>
        refine ⟨hI, fun _ j st' hst' hw => ?_⟩
        by_cases hj : j = i
        · subst hj
          rw [hst] at hst'
          obtain rfl := Option.some.inj hst'
          exact hend hw.1
        · exact halone j st' hj hst' hw

theorem Inv.emit (hI : Inv s) {d : Option ProgressData}
    (hstored : ∀ data ∈ d, data.status.terminal = true →
      s.proc.world.batch.status.terminal = true ∧ ended s.proc.pc = true) :
    Inv (s.emit d) := by
  cases d with
  | none => exact hI
  | some data =>
    obtain ⟨hI', hheard⟩ := hI.emitProgress data
    have hsame := unmoved_emitProgress s data
    have hsplit : (s.announced || data.status.terminal) = true →
        s.announced = true ∨ data.status.terminal = true := by
      simp
    refine ⟨hI'.sound, hI'.registered, fun hannounced => ?_, fun hannounced => ?_⟩
    · rcases hsplit hannounced with hbefore | hterm
      · exact hI'.heard (hsame.announced.trans hbefore)
      · exact hheard hterm
    · show (s.emitProgress data).proc.world.batch.status.terminal = true ∧
        ended (s.emitProgress data).proc.pc = true
      rw [hsame.proc]
      rcases hsplit hannounced with hbefore | hterm
      · exact hI.stored hbefore
      · exact hstored data rfl hterm

/-! ### The processor -/

theorem Inv.cut (hI : Inv s) : Inv s.cut where
  sound := by
    intro i st hst
    obtain ⟨st', hst', rfl⟩ := Option.map_eq_some_iff.mp hst
    exact (hI.sound i st' hst').end (e := .disconnected) nofun
  registered := by
    intro i st hst hw
    obtain ⟨st', -, rfl⟩ := Option.map_eq_some_iff.mp hst
    exact absurd hw Stream.not_waiting_end
  heard := by
    intro _ i st hst
    obtain ⟨st', -, rfl⟩ := Option.map_eq_some_iff.mp hst
    exact Stream.not_waiting_end
  stored := hI.stored

/-- The processor moves on; what was stored when it announced the end stays. -/
theorem Inv.move (hI : Inv s) {p : NodePipeline.State} {landed : Bool}
    (h : s.announced = true → p.world.batch.status.terminal = true ∧ ended p.pc = true) :
    Inv { s with proc := p, landed } :=
  ⟨hI.sound, hI.registered, hI.heard, h⟩

theorem ended_next {pc : Pc} (h : ended pc = true) : ended (pc.next job) = true := by
  cases pc with
  | cleaning error => cases error <;> rfl
  | returned | thrown | died => rfl
  | _ => cases h

theorem ended_fail {pc : Pc} {c : Call} (h : ended pc = true) (hc : pc.call job = some c)
    (f : Fault) : ended (pc.fail f) = true := by
  cases pc with
  | cleaning error =>
    cases f with
    | crash => rfl
    | thrown _ => cases error <;> rfl
  | returned | thrown | died => cases hc
  | _ => cases h

/-- What an attempt that is over still does to the batch. -/
theorem batch_of_ended {n : ℕ} {w w' : World} {pc : Pc} {c : Call} (h : ended pc = true)
    (hc : pc.call job = some c) (hrun : w.run job n c = .ok w') : w'.batch = w.batch := by
  cases pc with
  | cleaning error =>
    cases hc
    cases hrun
    rfl
  | returned | thrown | died => cases hc
  | _ => cases h

/-- A terminal status is stored before it is emitted. -/
theorem stored_of_emits {n : ℕ} {w w' : World} {pc : Pc} {c : Call}
    (hc : pc.call job = some c) (hrun : w.run job n c = .ok w') (hd : pc.emits job = some data)
    (hterm : data.status.terminal = true) :
    w'.batch.status.terminal = true ∧ ended (pc.next job) = true := by
  cases pc with
  | completing | failing =>
    cases hc
    cases hrun
    exact ⟨rfl, rfl⟩
  | savingTotal | savingProcessed =>
    cases hd
    cases hterm
  | _ => cases hd

theorem Inv.fail (hI : Inv s) {c : Call} (hc : s.proc.pc.call job = some c) (f : Fault) :
    Inv (s.fail f) := by
  have hmoved : Inv { s with proc := { s.proc with pc := s.proc.pc.fail f }, landed := false } :=
    hI.move fun hannounced => ⟨(hI.stored hannounced).1, ended_fail (hI.stored hannounced).2 hc f⟩
  cases f with
  | crash => exact hmoved.cut
  | thrown error => exact hmoved

/-! ### One step -/

/-- **What a tuned step preserves.** -/
theorem inv_step (hp : Follows job p s) (hI : Inv s) (hC : Tuned s a)
    (h : step job s a = some s') : Inv s' := by
  cases a with
  | land =>
    dsimp only [step] at h
    split_ifs at h
    obtain ⟨c, hc, h⟩ := Option.bind_eq_some_iff.mp h
    split at h
    · next w hrun =>
      obtain rfl := Option.some.inj h
      refine hI.move fun hannounced => ?_
      obtain ⟨hstored, hover⟩ := hI.stored hannounced
      exact ⟨(batch_of_ended hover hc hrun).symm ▸ hstored, hover⟩
    · cases h
  | reply =>
    obtain ⟨c, hc, h⟩ := Option.bind_eq_some_iff.mp h
    split_ifs at h with hlanded
    · obtain rfl := Option.some.inj h
      obtain ⟨c', hc', hrun⟩ := hp.landed hlanded
      rw [hp.pc.1] at hc'
      have hmoved : Inv { s with
          proc := { s.proc with pc := s.proc.pc.next job }, landed := false } :=
        hI.move fun hannounced => ⟨(hI.stored hannounced).1, ended_next (hI.stored hannounced).2⟩
      exact hmoved.emit fun data hdata hterm => stored_of_emits hc' hrun hdata hterm
    · split at h
      · cases h
      · next f _ =>
        obtain rfl := Option.some.inj h
        exact hI.fail hc f
  | fault error =>
    obtain ⟨c, hc, rfl⟩ := Option.map_eq_some_iff.mp h
    exact hI.fail hc _
  | die =>
    obtain rfl := Option.some.inj h
    refine hI.cut.move fun hannounced => ?_
    obtain ⟨hstored, hover⟩ := hI.stored hannounced
    split
    · exact ⟨hstored, rfl⟩
    · exact ⟨hstored, hover⟩
  | retry =>
    obtain ⟨q, -, rfl⟩ := Option.map_eq_some_iff.mp h
    exact ⟨hI.sound, hI.registered, nofun, nofun⟩
  | subscribe i =>
    dsimp only [step] at h
    split_ifs at h
    obtain rfl := Option.some.inj h
    exact hI.put Stream.sound_new (fun hw => absurd hw Stream.not_waiting_new) (.inr hC)
  | answer i =>
    obtain ⟨st, hst, h⟩ := Option.bind_eq_some_iff.mp h
    split_ifs at h
    obtain rfl := Option.some.inj h
    have hsound := hI.sound i st hst
    refine hI.put ⟨hsound.open_, hsound.told⟩ ?_ (.inl rfl)
    rintro ⟨hend, hread | ⟨b, hread, hterm⟩⟩
    · cases hread
    · cases hread
      -- The batch was over, the emitter is the stream's own, or the stream has ended.
      rcases hC with hdone | hreg | ⟨st', e, hst', he⟩
      · rw [hterm] at hdone
        cases hdone
      · refine ⟨hreg, ?_⟩
        by_contra hannounced
        rw [(hI.stored (by simpa using hannounced)).1] at hterm
        cases hterm
      · rw [hst] at hst'
        obtain rfl := Option.some.inj hst'
        rw [he] at hend
        cases hend
  | readError i =>
    obtain ⟨st, hst, h⟩ := Option.bind_eq_some_iff.mp h
    split_ifs at h
    obtain rfl := Option.some.inj h
    have hsound := hI.sound i st hst
    refine hI.put ⟨hsound.open_, hsound.told⟩ ?_ (.inl rfl)
    rintro ⟨-, hread | ⟨b, hread, -⟩⟩
    · cases hread
    · cases hread
  | resume i =>
    obtain ⟨st, hst, h⟩ := Option.bind_eq_some_iff.mp h
    have hsound := hI.sound i st hst
    have halone : st.clears = true → Alone s i := fun hclears => hC ⟨st, hst, hclears⟩
    unfold State.resume at h
    split at h
    · next b hread =>
      obtain rfl := Option.some.inj h
      refine hI.tell hst ⟨hsound.open_, hsound.told⟩ (fun hw hterm => ?_) fun hterm hopen => ?_
      · exact ⟨hw.1, .inr ⟨b, hread, hterm⟩⟩
      · refine halone ?_
        have hopen' : st.isCompleted = false := hopen
        have hterm' : b.status.terminal = true := hterm
        simp [Stream.clears, hread, hopen', hterm']
    · next hread =>
      obtain rfl := Option.some.inj h
      exact hI.end hst nofun fun hend => halone (by simp [Stream.clears, hread, hend])
    · next hread =>
      obtain rfl := Option.some.inj h
      exact hI.end hst nofun fun hend => halone (by simp [Stream.clears, hread, hend])
    · cases h
    · cases h
  | disconnect i =>
    obtain ⟨st, hst, h⟩ := Option.bind_eq_some_iff.mp h
    split_ifs at h
    obtain rfl := Option.some.inj h
    exact hI.end hst (r := st.read) nofun fun _ => hC

theorem inv_start : Inv start := ⟨nofun, nofun, nofun, nofun⟩

theorem inv_of_run {as : List Label} (hC : Meets (step job) Tuned start as)
    (h : exec (step job) start as = some s) : Inv s := by
  have hI : (∃ p, Follows job p s) ∧ Inv s := by
    refine exec_invariant_of_meets (I := fun s => (∃ p, Follows job p s) ∧ Inv s) ?_ ?_ hC h
    · rintro s a s' ⟨⟨p, hp⟩, hI⟩ hC hs
      obtain ⟨-, p', -, hp'⟩ := follows_step hp hs
      exact ⟨⟨p', hp'⟩, inv_step hp hI hC hs⟩
    · exact ⟨⟨_, follows_self _ rfl rfl⟩, inv_start⟩
  exact hI.2

/-- Once the end is announced, and every read is done, nobody is left to hear of it. -/
theorem Inv.heard_of_finished (hI : Inv s) (hfinished : Finished s) (hquiet : Quiet s) :
    Heard s := by
  intro i st hst hdisconnected herrored
  cases hend : st.ending with
  | none => exact absurd ⟨hend, .inl (hquiet i st hst)⟩ (hI.heard hfinished.2 i st hst)
  | some e =>
    cases e with
    | completed => exact ⟨rfl, (hI.sound i st hst).told hend⟩
    | errored => exact absurd hend herrored
    | disconnected => exact absurd hend hdisconnected

/-! ### A stream without its emitter -/

/-- The stream waits, and nothing will reach it. -/
def Stranded (s : State) (i : ℕ) : Prop :=
  ∃ st, s.streams i = some st ∧ st.Waiting ∧ s.emitter ≠ some i

/-- Its client has left. -/
def Left (s : State) (i : ℕ) : Prop :=
  ∃ st, s.streams i = some st ∧ st.ending = some .disconnected

theorem stranded_put {j : ℕ} (hne : j ≠ i) (hS : Stranded s i)
    (he : e = s.emitter ∨ e = none ∨ e = some j) : Stranded { s.put j st with emitter := e } i := by
  obtain ⟨st', hst', hw, hemitter⟩ := hS
  refine ⟨st', ?_, hw, ?_⟩
  · exact (Function.update_of_ne hne.symm _ _).trans hst'
  · rcases he with rfl | rfl | rfl
    · exact hemitter
    · exact nofun
    · exact fun heq => hne (Option.some.inj heq)

theorem stranded_tell {j : ℕ} (hne : j ≠ i) (hS : Stranded s i) :
    Stranded (s.tell j st data) i := by
  rw [tell_eq]
  refine stranded_put hne hS ?_
  split
  · exact .inr (.inl rfl)
  · exact .inl rfl

theorem stranded_close {j : ℕ} (hne : j ≠ i) (hS : Stranded s i) {x : Ending} :
    Stranded (s.close j st x) i := by
  rw [close_eq]
  refine stranded_put hne hS ?_
  split
  · exact .inr (.inl rfl)
  · exact .inl rfl

theorem left_cut (hS : Stranded s i) : Left s.cut i := by
  obtain ⟨st, hst, hw, -⟩ := hS
  exact ⟨st.cut, Option.map_eq_some_iff.mpr ⟨st, hst, rfl⟩, by simp [Stream.cut, hw.1]⟩

theorem stranded_fail (hS : Stranded s i) (f : Fault) :
    Stranded (s.fail f) i ∨ Left (s.fail f) i := by
  cases f with
  | crash => exact .inr (left_cut hS)
  | thrown error => exact .inl hS

theorem stranded_emit (hS : Stranded s i) (d : Option ProgressData) : Stranded (s.emit d) i := by
  cases d with
  | none => exact hS
  | some data =>
    show Stranded (s.emitProgress data) i
    unfold State.emitProgress
    split
    · exact hS
    · next j hj =>
      have hne : j ≠ i := by
        rintro rfl
        obtain ⟨-, -, -, hemitter⟩ := hS
        exact hemitter hj
      split
      · exact hS
      · split
        · exact stranded_tell hne hS
        · exact hS

theorem stranded_of_not_alone (halone : ¬Alone s i) (he : e = none ∨ e = some i) :
    ∃ j, Stranded { s.put i st with emitter := e } j := by
  simp only [Alone, not_forall, not_not] at halone
  obtain ⟨j, st', hj, hst', hw⟩ := halone
  refine ⟨j, st', (Function.update_of_ne hj _ _).trans hst', hw, ?_⟩
  rcases he with rfl | rfl
  · exact nofun
  · exact fun heq => hj (Option.some.inj heq).symm

/-- **A step that is not tuned strands a stream.** -/
theorem stranded_of_not_tuned (hC : ¬Tuned s a) (h : step job s a = some s') :
    ∃ i, Stranded s' i := by
  cases a with
  | subscribe i =>
    dsimp only [step] at h
    split_ifs at h
    obtain rfl := Option.some.inj h
    exact stranded_of_not_alone hC (.inr rfl)
  | answer i =>
    obtain ⟨st, hst, h⟩ := Option.bind_eq_some_iff.mp h
    split_ifs at h
    obtain rfl := Option.some.inj h
    obtain ⟨hterm, hrest⟩ := not_or.mp hC
    obtain ⟨hemitter, hopen⟩ := not_or.mp hrest
    refine ⟨i, _, Function.update_self .., ⟨?_, .inr ⟨_, rfl, by simpa using hterm⟩⟩, hemitter⟩
    -- A stream that has ended is not one that waits.
    by_contra hend
    obtain ⟨e, he⟩ := Option.ne_none_iff_exists'.mp hend
    exact hopen ⟨st, e, hst, he⟩
  | resume i =>
    obtain ⟨⟨st', hst', hclears⟩, halone⟩ := Classical.not_imp.mp hC
    obtain ⟨st, hst, h⟩ := Option.bind_eq_some_iff.mp h
    rw [hst] at hst'
    obtain rfl := Option.some.inj hst'
    unfold Stream.clears at hclears
    unfold State.resume at h
    split at h
    · next b hread =>
      obtain rfl := Option.some.inj h
      simp only [hread, Bool.and_eq_true, Bool.not_eq_true'] at hclears
      rw [tell_eq]
      exact stranded_of_not_alone halone (.inl (if_pos hclears))
    · next hread =>
      obtain rfl := Option.some.inj h
      simp only [hread, Option.isNone_iff_eq_none] at hclears
      rw [close_eq, if_pos hclears]
      exact stranded_of_not_alone halone (.inl rfl)
    · next hread =>
      obtain rfl := Option.some.inj h
      simp only [hread, Option.isNone_iff_eq_none] at hclears
      rw [close_eq, if_pos hclears]
      exact stranded_of_not_alone halone (.inl rfl)
    · cases h
    · cases h
  | disconnect i =>
    obtain ⟨st, hst, h⟩ := Option.bind_eq_some_iff.mp h
    split_ifs at h with hend
    obtain rfl := Option.some.inj h
    rw [close_eq, if_pos hend]
    exact stranded_of_not_alone hC (.inl rfl)
  | land | reply | fault | die | retry | readError => exact absurd trivial hC

/-- **A stream that has lost its emitter waits until its client leaves**, step by step. -/
theorem stranded_step (hS : Stranded s i) (h : step job s a = some s') :
    Stranded s' i ∨ Left s' i := by
  obtain ⟨st₀, hst₀, hw, hemitter⟩ := hS
  have hS : Stranded s i := ⟨st₀, hst₀, hw, hemitter⟩
  cases a with
  | land =>
    dsimp only [step] at h
    split_ifs at h
    obtain ⟨c, -, h⟩ := Option.bind_eq_some_iff.mp h
    split at h <;> cases h
    exact .inl hS
  | reply =>
    obtain ⟨c, -, h⟩ := Option.bind_eq_some_iff.mp h
    split_ifs at h
    · obtain rfl := Option.some.inj h
      have hmoved : Stranded { s with
          proc := { s.proc with pc := s.proc.pc.next job }, landed := false } i := hS
      exact .inl (stranded_emit hmoved _)
    · split at h
      · cases h
      · exact Option.some.inj h ▸ stranded_fail hS _
  | fault error =>
    obtain ⟨c, -, rfl⟩ := Option.map_eq_some_iff.mp h
    exact stranded_fail hS _
  | die =>
    obtain rfl := Option.some.inj h
    exact .inr (left_cut hS)
  | retry =>
    obtain ⟨q, -, rfl⟩ := Option.map_eq_some_iff.mp h
    exact .inl hS
  | subscribe j =>
    dsimp only [step] at h
    split_ifs at h with hnone
    obtain rfl := Option.some.inj h
    have hne : j ≠ i := by
      rintro rfl
      rw [hnone] at hst₀
      cases hst₀
    exact .inl (stranded_put hne hS (.inr (.inr rfl)))
  | answer j | readError j =>
    obtain ⟨st, hst, h⟩ := Option.bind_eq_some_iff.mp h
    split_ifs at h with hread
    obtain rfl := Option.some.inj h
    have hne : j ≠ i := by
      rintro rfl
      rw [hst] at hst₀
      obtain rfl := Option.some.inj hst₀
      rcases hw.2 with hdone | ⟨b, hdone, -⟩
      · rw [hread] at hdone
        cases hdone
      · rw [hread] at hdone
        cases hdone
    exact .inl (stranded_put hne hS (.inl rfl))
  | resume j =>
    obtain ⟨st, hst, h⟩ := Option.bind_eq_some_iff.mp h
    unfold State.resume at h
    by_cases hj : j = i
    · subst hj
      rw [hst] at hst₀
      obtain rfl := Option.some.inj hst₀
      split at h
      · next b hread =>
        obtain rfl := Option.some.inj h
        rcases hw.2 with hdone | ⟨b', hdone, hterm⟩
        · rw [hread] at hdone
          cases hdone
        · rw [hread] at hdone
          cases hdone
          -- the answer is passed on, and the stream waits as before
          have hb : b.progress.status.terminal = false := hterm
          have htold : ({ st with read := .done } : Stream).told b.progress =
              ({ st with read := .done } : Stream).sendProgress b.progress :=
            if_neg (by simp [hb])
          rw [tell_eq, htold, if_neg (by simp [hb])]
          exact .inl ⟨_, Function.update_self .., ⟨by simpa using hw.1, .inl (by simp)⟩, hemitter⟩
      · next hread => rcases hw.2 with hdone | ⟨b, hdone, -⟩ <;> simp [hread] at hdone
      · next hread => rcases hw.2 with hdone | ⟨b, hdone, -⟩ <;> simp [hread] at hdone
      · cases h
      · cases h
    · split at h
      · exact .inl (Option.some.inj h ▸ stranded_tell hj hS)
      · exact .inl (Option.some.inj h ▸ stranded_close hj hS)
      · exact .inl (Option.some.inj h ▸ stranded_close hj hS)
      · cases h
      · cases h
  | disconnect j =>
    obtain ⟨st, hst, h⟩ := Option.bind_eq_some_iff.mp h
    split_ifs at h with hend
    obtain rfl := Option.some.inj h
    by_cases hj : j = i
    · subst hj
      rw [close_eq]
      exact .inr ⟨_, Function.update_self .., by simp [hend]⟩
    · exact .inl (stranded_close hj hS)

end

/-! ### The streams of a batch -/

/-- **No open stream misses the end of its batch**, in every run in which no step takes the
registered emitter from another stream that waits for an event, and no read finds the batch
unfinished for a stream without it. -/
theorem end_heard (job : Job) (as : List Label) (s : State) (hC : Meets (step job) Tuned start as)
    (hrun : exec (step job) start as = some s) (hfinished : Finished s) (hquiet : Quiet s) :
    Heard s :=
  (inv_of_run hC hrun).heard_of_finished hfinished hquiet

/-- The first update of the attempt fails, and FAILED is stored and emitted. -/
def failure : List Label := [.fault (.error (js "read ECONNRESET")), .land, .reply]

/-- A second stream subscribes before the first has its answer, and takes its place.  The failure
is stored when the first one is answered, and emitted to the second. -/
def twoStreams : List Label :=
  [.subscribe 0, .subscribe 1, .answer 1, .resume 1, .fault (.error (js "read ECONNRESET")), .land,
    .answer 0, .reply, .resume 0]

/-- The first stream reads that the batch has failed, and the second hears of it. -/
theorem end_heard_two_streams : ∃ s, exec (step oneRow) start twoStreams = some s ∧
    (∃ st, s.streams 0 = some st ∧ st.sent.length = 1) ∧
    (∃ st, s.streams 1 = some st ∧ st.sent.length = 2) ∧ Heard s := by
  have hrun : ∃ s, exec (step oneRow) start twoStreams = some s ∧
      (∃ st, s.streams 0 = some st ∧ st.sent.length = 1) ∧
      (∃ st, s.streams 1 = some st ∧ st.sent.length = 2) ∧ Finished s ∧ Quiet s := by
    refine ⟨_, rfl, ⟨_, rfl, rfl⟩, ⟨_, rfl, rfl⟩, ⟨rfl, rfl⟩, ?_⟩
    rintro (_ | _ | n) st hst
    · obtain rfl := Option.some.inj hst
      rfl
    · obtain rfl := Option.some.inj hst
      rfl
    · cases hst
  obtain ⟨s, hs, hfirst, hsecond, hfinished, hquiet⟩ := hrun
  refine ⟨s, hs, hfirst, hsecond, end_heard oneRow _ s ?_ hs hfinished hquiet⟩
  refine ⟨nofun, fun s₁ h₁ => ⟨?_, fun s₂ h₂ => ⟨.inr (.inl ?_), fun s₃ h₃ => ⟨?_, fun s₄ h₄ =>
    ⟨trivial, fun s₅ h₅ => ⟨trivial, fun s₆ h₆ => ⟨.inl ?_, fun s₇ h₇ => ⟨trivial, fun s₈ h₈ =>
      ⟨?_, fun _ _ => trivial⟩⟩⟩⟩⟩⟩⟩⟩⟩
  · -- the read of the first stream is outstanding
    cases h₁
    rintro (_ | n) st - hst hw
    · obtain rfl := Option.some.inj hst
      exact Stream.not_waiting_new hw
    · cases hst
  · cases h₁
    cases h₂
    rfl
  · -- the second stream goes on waiting
    cases h₁
    cases h₂
    cases h₃
    rintro ⟨st, hst, hclears⟩
    obtain rfl := Option.some.inj hst
    cases hclears
  · cases h₁
    cases h₂
    cases h₃
    cases h₄
    cases h₅
    cases h₆
    rfl
  · -- the second stream has ended
    cases h₁
    cases h₂
    cases h₃
    cases h₄
    cases h₅
    cases h₆
    cases h₇
    cases h₈
    rintro - (_ | _ | n) st hne hst ⟨hend, -⟩
    · exact hne rfl
    · obtain rfl := Option.some.inj hst
      cases hend
    · cases hst

/-- A second stream takes the place of the first, which then waits for ever. -/
theorem second_stream_strands_first : ∃ s,
    exec (step oneRow) start ([.subscribe 0, .answer 0, .resume 0, .subscribe 1, .answer 1,
      .resume 1] ++ failure) = some s ∧ Finished s ∧ Quiet s ∧ ¬Heard s := by
  refine ⟨_, rfl, ⟨rfl, rfl⟩, ?_, ?_⟩
  · rintro (_ | _ | n) st hst
    · obtain rfl := Option.some.inj hst
      rfl
    · obtain rfl := Option.some.inj hst
      rfl
    · cases hst
  · intro hheard
    cases (hheard 0 _ rfl nofun nofun).1

end Sse

end CsvProductUploader.NodePipeline
