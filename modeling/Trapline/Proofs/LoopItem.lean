import Mathlib.Tactic.IntervalCases
import Trapline.Proofs.Limit
import Trapline.Proofs.Rounds

/-!
# What a loop leaves in its item

A loop binds each element to the name of its item. It rebinds the nearest binding of the name, in
whichever frame that is, and only a name that no frame binds is bound in the frame of the loop. The
choice is made anew in each round, and the first round may create the binding that the others find.
Seen from the memory before the loop it comes out the same in every round (`Memory.inLoop`), as long
as each round ends with the memory of its entry (`EndsQuietly`). So when the loop drops its frame, a
name that was bound before has the last element, and a name that was not is unbound again.

Main statements:
* `Memory.setOrLocal_pushFrame`, `Memory.setOrLocal_inLoop`: the first round and any later one.
* `memory_of_roundStart`: the memory at each entry of the body.
* `memory_after_each`: the memory on arrival at the escape label.
-/

namespace Trapline

namespace Bindings

variable {α : Type}

theorem replace_replace
    (name : Name)
    (a a' : α)
    (entries : List (Name × α)) :
    replace name a' (replace name a entries) = replace name a' entries := by
  induction entries with
  | nil => simp [replace]
  | cons entry rest ih =>
      obtain ⟨key, b⟩ := entry
      by_cases hkey : key = name
      · simp [replace, hkey]
      · simp [replace, hkey, ih]

theorem insert_insert
    (b : Bindings α)
    (name : Name)
    (a a' : α) :
    (b.insert name a).insert name a' = b.insert name a' := by
  simp only [insert, replace_replace]

end Bindings

namespace Memory

theorem contains_pushFrame
    (m : Memory)
    (name : Name) :
    m.pushFrame.contains name = m.contains name := by
  rw [contains, get?_pushFrame, contains]

theorem contains_rebind
    (m : Memory)
    (name : Name)
    (v : Value) :
    (m.rebind name v).contains name = m.contains name := by
  rw [contains, get?_rebind]
  cases h : m.contains name with
  | true => simp
  | false => simpa [contains] using h

theorem rebind_rebind
    (m : Memory)
    (name : Name)
    (v w : Value) :
    (m.rebind name v).rebind name w = m.rebind name w := by
  induction m with
  | root frame =>
      by_cases hframe : frame.contains name = true
      · simp [rebind, hframe, Bindings.contains_insert, Bindings.insert_insert]
      · simp [rebind, hframe]
  | scope frame outer ih =>
      by_cases hframe : frame.contains name = true
      · simp [rebind, hframe, Bindings.contains_insert, Bindings.insert_insert]
      · simp [rebind, hframe, ih]

/-- Rebinding a name changes one frame: the first one that binds it. -/
theorem frames_rebind
    {m : Memory}
    {name : Name}
    (h : m.contains name = true)
    (v : Value) :
    ∃ inner frame outer,
      m.frames = inner ++ frame :: outer ∧
      (∀ f ∈ inner, f.contains name = false) ∧
      frame.contains name = true ∧
      (m.rebind name v).frames = inner ++ frame.insert name v :: outer := by
  induction m with
  | root frame =>
      have hframe : frame.contains name = true := h
      exact ⟨[], frame, [], rfl, nofun, hframe, by simp [rebind, hframe, frames]⟩
  | scope frame outer ih =>
      by_cases hframe : frame.contains name = true
      · exact ⟨[], frame, outer.frames, rfl, nofun, hframe, by simp [rebind, hframe, frames]⟩
      · have houter : outer.contains name = true := by
          have hnone := Bindings.get?_eq_none_of_contains (Bool.eq_false_iff.2 hframe)
          simpa [contains, get?, hnone] using h
        obtain ⟨inner, found, rest, hframes, hinner, hfound, hrebind⟩ := ih houter
        refine ⟨frame :: inner, found, rest, ?_, ?_, hfound, ?_⟩
        · rw [frames, hframes, List.cons_append]
        · exact List.forall_mem_cons.2 ⟨Bool.eq_false_iff.2 hframe, hinner⟩
        · rw [rebind, if_neg hframe, frames, hrebind, List.cons_append]

/-- The memory in a round of a loop that was started on the given memory, if nothing but the loop
changes it. -/
def inLoop (m : Memory) (item : Name) (v : Value) : Memory :=
  if m.contains item then (m.rebind item v).pushFrame
  else m.pushFrame.bindInnermost item v

variable (m : Memory) (item : Name) {v w : Value}

theorem setOrLocal_pushFrame
    (hv : v.isIdent = false) :
    m.pushFrame.setOrLocal item v = .ok (m.inLoop item v) := by
  have hrebind : m.pushFrame.rebind item v = (m.rebind item v).pushFrame := by
    simp [pushFrame, rebind, Bindings.contains]
  rw [setOrLocal, storing, if_neg (by simp [hv]), contains_pushFrame, inLoop, hrebind]

/-- Every later round finds the binding that the first one has used. -/
theorem setOrLocal_inLoop
    (v : Value)
    (hw : w.isIdent = false) :
    (m.inLoop item v).setOrLocal item w = .ok (m.inLoop item w) := by
  cases hbound : m.contains item with
  | true =>
      have hround : ∀ u, m.inLoop item u = (m.rebind item u).pushFrame := by
        intro u
        rw [inLoop, if_pos hbound]
      rw [hround v, setOrLocal_pushFrame _ _ hw, inLoop, contains_rebind, if_pos hbound,
        rebind_rebind, hround w]
  | false =>
      have hround : ∀ u, m.inLoop item u = scope (Bindings.empty.insert item u) m := by
        intro u
        rw [inLoop, if_neg (by simp [hbound])]
        rfl
      have hframe : (Bindings.empty.insert item v).contains item = true := by
        rw [Bindings.contains, Bindings.get?_insert_self]
        rfl
      have hcontains : (scope (Bindings.empty.insert item v) m).contains item = true := by
        simp [contains, get?]
      rw [hround v, setOrLocal, storing, if_neg (by simp [hw]), if_pos hcontains, rebind,
        if_pos hframe, Bindings.insert_insert, hround w]

theorem popFrame_inLoop
    (v : Value) :
    (m.inLoop item v).popFrame = .ok (if m.contains item then m.rebind item v else m) := by
  rw [inLoop]
  split <;> rfl

end Memory

namespace Machine

variable {σ : Type} [Sink σ] {p : Program}

omit [Sink σ] in
/-- What a loop that is asked for an element does to the memory. -/
theorem memory_of_nextRound
    {m m' : Machine σ}
    {loop : Loop}
    (h : m.nextRound p loop = .running m') :
    (∃ v,
      loop.items[loop.next]? = some v ∧
      m.memory.setOrLocal loop.item v = .ok m'.memory) ∨
    (loop.items[loop.next]? = none ∧ m.memory.popFrame = .ok m'.memory) := by
  rcases nextRound_cases p m loop with
    ⟨v, memory, hitem, hset, hround⟩ | ⟨memory, hitem, hpop, hround⟩ |
    ⟨v, fault, -, -, hround⟩ | ⟨fault, -, -, hround⟩
  · rw [hround] at h
    obtain ⟨target, -, rfl⟩ := jump_eq_running h
    exact Or.inl ⟨v, hitem, hset⟩
  · rw [hround] at h
    obtain ⟨target, -, rfl⟩ := jump_eq_running h
    exact Or.inr ⟨hitem, hpop⟩
  · rw [hround] at h
    cases h
  · rw [hround] at h
    cases h

omit [Sink σ] in
@[simp] theorem memory_advance
    (m : Machine σ) :
    m.advance.memory = m.memory := by
  unfold advance
  split <;> rfl

/-- From its entry a round comes to its end, with the memory that it had at the entry. In between
the memory may change, as it does when a frame is put on top and removed again. -/
def EndsQuietly (p : Program) (s : Machine σ) (loop : Loop) (k : Nat) (m : Machine σ) : Prop :=
  ∃ j r,
    m.run p none j = .running r ∧
    AtRoundEnd p s loop k r ∧
    (∀ i < j, ∀ q, m.run p none i = .running q → ¬ AtRoundEnd p s loop k q) ∧
    r.memory = m.memory

variable {s : Machine σ} {loop : Loop}

/-- The first round is entered with a new frame on top. -/
theorem memory_of_step_each
    {m : Machine σ}
    {item body escape : Name}
    {target : Value}
    {items : List Value}
    (haction : p.action? s.position = some (.each item target body escape))
    (htarget : s.memory.deref target = .ok (.vector items))
    (h : s.step p none = .running m) :
    (∃ v, items[0]? = some v ∧ s.memory.pushFrame.setOrLocal item v = .ok m.memory) ∨
    (items[0]? = none ∧ s.memory.pushFrame.popFrame = .ok m.memory) := by
  obtain ⟨a, m₁, ha, hexec, rfl⟩ := running_of_step h
  obtain rfl := Option.some.inj (ha.symm.trans haction)
  have htarget' : s.count.memory.deref target = .ok (.vector items) := htarget
  simp only [exec, startLoop, htarget'] at hexec
  rw [memory_advance]
  exact memory_of_nextRound hexec

/-- A later round is entered with the memory at the end of the one before. -/
theorem memory_of_step_roundEnd
    {k : Nat}
    {r m : Machine σ}
    (hend : AtRoundEnd p s loop k r)
    (h : r.step p none = .running m) :
    (∃ v, loop.items[k + 1]? = some v ∧ r.memory.setOrLocal loop.item v = .ok m.memory) ∨
    (loop.items[k + 1]? = none ∧ r.memory.popFrame = .ok m.memory) := by
  obtain ⟨a, m₁, ha, hexec, rfl⟩ := running_of_step h
  obtain rfl := Option.some.inj (ha.symm.trans hend.action)
  obtain ⟨newer, htraps, hnewer⟩ := hend.traps
  have hunwind :
      Trap.unwind? Trap.loopLabel r.count.traps = some (loop.roundTrap s.position k, s.traps) :=
    Trap.unwind?_eq_some_iff.2 ⟨newer, htraps, rfl, hnewer⟩
  simp only [exec, returnToTrap, hunwind] at hexec
  rw [memory_advance]
  exact memory_of_nextRound hexec

/-- A round is quiet if steps that leave the memory alone lead from its entry to a return that meets
the trap of the round. -/
theorem endsQuietly_of_unchanged
    {k j : Nat}
    {m r : Machine σ}
    (newer : List Trap)
    (hdepth : m.memory.depth = s.memory.depth + 1)
    (hrun : m.run p none j = .running r)
    (hsame : ∀ i ≤ j, ∀ q, m.run p none i = .running q → q.memory = m.memory)
    (haction : p.action? r.position = some (.returnToTrap Trap.loopLabel))
    (htraps : r.traps = newer ++ loop.roundTrap s.position k :: s.traps)
    (hnewer : ∀ t ∈ newer, t.label ≠ Trap.loopLabel) :
    EndsQuietly p s loop k m := by
  have hend : AtRoundEnd p s loop k r := by
    refine ⟨haction, ?_, newer, htraps, hnewer⟩
    rw [hsame j (Nat.le_refl j) r hrun, hdepth]
  obtain ⟨j', r', hj', hrun', hend', hfirst⟩ := exists_first_roundEnd hrun hend
  exact ⟨j', r', hrun', hend', hfirst, hsame j' hj' r' hrun'⟩

/-- Where a quiet round ends for the first time, the memory is that of its entry. -/
theorem EndsQuietly.memory_eq
    {k j : Nat}
    {m r : Machine σ}
    (h : EndsQuietly p s loop k m)
    (hrun : m.run p none j = .running r)
    (hend : AtRoundEnd p s loop k r)
    (hfirst : ∀ i < j, ∀ q, m.run p none i = .running q → ¬ AtRoundEnd p s loop k q) :
    r.memory = m.memory := by
  obtain ⟨j', r', hrun', hend', hfirst', hmemory⟩ := h
  obtain ⟨-, rfl⟩ := first_roundEnd_unique hrun hend hfirst hrun' hend' hfirst'
  exact hmemory

section Quiet

/-! A loop over a vector of which every round is quiet. -/

variable {target : Value}
  (haction : p.action? s.position = some (.each loop.item target loop.body loop.escape))
  (htarget : s.memory.deref target = .ok (.vector loop.items))
  (hitems : ∀ v ∈ loop.items, v.isIdent = false)
  (hquiet : ∀ k < loop.items.length, ∀ t m, RoundStart p s loop k t m → EndsQuietly p s loop k m)

include haction htarget hitems hquiet

/-- The memory at the entry of a round depends on the memory before the loop and on the element of
the round alone. -/
theorem memory_of_roundStart
    {k t : Nat}
    {m : Machine σ}
    {v : Value}
    (h : RoundStart p s loop k t m)
    (hv : loop.items[k]? = some v) :
    m.memory = s.memory.inLoop loop.item v := by
  induction h generalizing v with
  | first hstep =>
      rcases memory_of_step_each haction htarget hstep with ⟨w, hw, hset⟩ | ⟨hnone, -⟩
      · obtain rfl := Option.some.inj (hw.symm.trans hv)
        rw [Memory.setOrLocal_pushFrame _ _ (hitems w (List.mem_of_getElem? hw))] at hset
        exact (Except.ok.inj hset).symm
      · rw [hnone] at hv
        cases hv
  | @next k t j m r m' hstart hrun hend hfirst hstep ih =>
      have hk : k < loop.items.length :=
        Nat.lt_of_succ_lt (List.getElem?_eq_some_iff.1 hv).1
      have hentry := ih (List.getElem?_eq_getElem hk)
      have hmemory : r.memory = m.memory :=
        (hquiet k hk t m hstart).memory_eq hrun hend hfirst
      rcases memory_of_step_roundEnd hend hstep with ⟨w, hw, hset⟩ | ⟨hnone, -⟩
      · obtain rfl := Option.some.inj (hw.symm.trans hv)
        rw [hmemory, hentry,
          Memory.setOrLocal_inLoop _ _ _ (hitems w (List.mem_of_getElem? hw))] at hset
        exact (Except.ok.inj hset).symm
      · rw [hnone] at hv
        cases hv

/-- A loop without elements leaves the memory as it found it. Any other loop has the last element in
its item when it drops its frame. -/
theorem memory_of_last_roundStart
    {t : Nat}
    {m : Machine σ}
    (h : RoundStart p s loop loop.items.length t m) :
    (loop.items = [] ∧ m.memory = s.memory) ∨
    ∃ v,
      loop.items.getLast? = some v ∧
      (s.memory.inLoop loop.item v).popFrame = .ok m.memory := by
  generalize hlength : loop.items.length = n at h
  cases h with
  | first hstep =>
      have hnil : loop.items = [] := List.length_eq_zero_iff.1 hlength
      rcases memory_of_step_each haction htarget hstep with ⟨v, hv, -⟩ | ⟨-, hpop⟩
      · rw [hnil] at hv
        cases hv
      · exact Or.inl ⟨hnil, (Except.ok.inj hpop).symm⟩
  | @next k t j m r _ hstart hrun hend hfirst hstep =>
      have hk : k < loop.items.length := by omega
      have hentry :=
        memory_of_roundStart haction htarget hitems hquiet hstart (List.getElem?_eq_getElem hk)
      have hmemory : r.memory = m.memory :=
        (hquiet k hk t m hstart).memory_eq hrun hend hfirst
      refine Or.inr ⟨loop.items[k], ?_, ?_⟩
      · rw [List.getLast?_eq_getElem?, hlength, Nat.add_sub_cancel, List.getElem?_eq_getElem hk]
      · rcases memory_of_step_roundEnd hend hstep with ⟨v, hv, -⟩ | ⟨-, hpop⟩
        · rw [List.getElem?_eq_none (by omega)] at hv
          cases hv
        · rw [← hentry, ← hmemory]
          exact hpop

end Quiet

/-- A loop that is asked for one element more than it has leaves for its escape label. -/
theorem hasLeft_of_roundStart
    {target : Value}
    {bodyAt escapeAt t : Nat}
    {m : Machine σ}
    (haction : p.action? s.position = some (.each loop.item target loop.body loop.escape))
    (htarget : s.memory.deref target = .ok (.vector loop.items))
    (hitems : ∀ v ∈ loop.items, v.isIdent = false)
    (hbody : p.label? loop.body = some bodyAt)
    (hescape : p.label? loop.escape = some escapeAt)
    (h : RoundStart p s loop loop.items.length t m) :
    ∃ memory, HasLeft s escapeAt memory m := by
  generalize hlength : loop.items.length = n at h
  cases h with
  | first hstep =>
      obtain ⟨m₀, hstep₀, ⟨v, hv, -⟩ | ⟨-, hleft⟩⟩ :=
        step_of_each haction htarget hitems hbody hescape
      · have hnil : loop.items = [] := List.length_eq_zero_iff.1 hlength
        simp [hnil] at hv
      · obtain rfl := Progress.running.inj (hstep.symm.trans hstep₀)
        exact ⟨_, hleft⟩
  | next hstart hrun hend hfirst hstep =>
      obtain ⟨m₀, hstep₀, ⟨v, hv, -⟩ | ⟨-, hleft⟩⟩ :=
        step_of_roundEnd hitems hbody hescape hend
      · rw [List.getElem?_eq_none (Nat.le_of_eq hlength)] at hv
        cases hv
      · obtain rfl := Progress.running.inj (hstep.symm.trans hstep₀)
        exact ⟨_, hleft⟩

/-- **What a loop leaves behind.** Take a loop over a vector, with its labels declared, of which
every round comes to its end with the memory that it had at its entry. The loop arrives at its
escape label, with the traps from before. Without an element, or with an item that no frame binds,
the memory is then the memory from before. Otherwise the nearest binding of the item, in whichever
frame it is, has the last element, and nothing else has changed. A limit that lets the run come as
far as that makes no difference. -/
theorem memory_after_each
    {item body escape : Name}
    {target : Value}
    {items : List Value}
    {bodyAt escapeAt : Nat}
    (haction : p.action? s.position = some (.each item target body escape))
    (htarget : s.memory.deref target = .ok (.vector items))
    (hitems : ∀ v ∈ items, v.isIdent = false)
    (hbody : p.label? body = some bodyAt)
    (hescape : p.label? escape = some escapeAt)
    (hloop : loop = { item, items, body, escape, next := 0 })
    (hquiet : ∀ k < items.length, ∀ t m, RoundStart p s loop k t m → EndsQuietly p s loop k m) :
    ∃ t m,
      RoundStart p s loop items.length t m ∧
      s.run p none t = .running m ∧
      (∀ limit m', s.run p limit t = .running m' → m' = m) ∧
      m.position = escapeAt ∧
      m.traps = s.traps ∧
      (items = [] ∨ s.memory.contains item = false → m.memory = s.memory) ∧
      ∀ v, items.getLast? = some v → s.memory.contains item = true →
        ∃ inner frame outer,
          s.memory.frames = inner ++ frame :: outer ∧
          (∀ f ∈ inner, f.contains item = false) ∧
          frame.contains item = true ∧
          m.memory.frames = inner ++ frame.insert item v :: outer := by
  obtain ⟨m₀, hfirst, -⟩ := step_of_each haction htarget hitems hbody hescape
  obtain ⟨rfl, rfl, rfl, rfl⟩ :
      item = loop.item ∧ items = loop.items ∧ body = loop.body ∧ escape = loop.escape := by
    rw [hloop]
    exact ⟨rfl, rfl, rfl, rfl⟩
  have hrounds : ∀ k < loop.items.length, ∀ t m, RoundStart p s loop k t m →
      ∃ j r, m.run p none j = .running r ∧ AtRoundEnd p s loop k r := by
    intro k hk t m h
    obtain ⟨j, r, hrun, hend, -⟩ := hquiet k hk t m h
    exact ⟨j, r, hrun, hend⟩
  obtain ⟨t, m, hstart⟩ :=
    exists_roundStart hitems hbody hescape hfirst hrounds (Nat.le_refl loop.items.length)
  obtain ⟨memory, hleft⟩ := hasLeft_of_roundStart haction htarget hitems hbody hescape hstart
  have hmemory := memory_of_last_roundStart haction htarget hitems hquiet hstart
  have hrun := hstart.run
  refine ⟨t, m, hstart, hrun, ?_, hleft.position, hleft.traps, ?_, ?_⟩
  · intro limit m' h
    exact Progress.running.inj ((run_none_of_running h).symm.trans hrun)
  · intro hunbound
    rcases hmemory with ⟨-, hsame⟩ | ⟨v, hv, hpop⟩
    · exact hsame
    · rcases hunbound with hnil | hunbound
      · rw [hnil] at hv
        cases hv
      · rw [Memory.popFrame_inLoop, if_neg (by simp [hunbound])] at hpop
        exact (Except.ok.inj hpop).symm
  · intro v hv hbound
    rcases hmemory with ⟨hnil, -⟩ | ⟨w, hw, hpop⟩
    · rw [hnil] at hv
      cases hv
    · obtain rfl := Option.some.inj (hw.symm.trans hv)
      rw [Memory.popFrame_inLoop, if_pos hbound] at hpop
      rw [← Except.ok.inj hpop]
      exact Memory.frames_rebind hbound w

/-- A loop over two numbers with a body that does nothing but jump and set a trap of its own. -/
def idleLoop : Program := .ofCode #[
  { op := .each, args := [.ident "x", .ident "xs", .ident "body", .ident "end"],
    location := { file := "main", line := 1 }, accepted := Eq.refl true },
  { op := .label, args := [.ident "body"],
    location := { file := "main", line := 2 }, accepted := Eq.refl true },
  { op := .setTrap, args := [.ident "other"],
    location := { file := "main", line := 3 }, accepted := Eq.refl true },
  { op := .returnToTrap, args := [.ident "each"],
    location := { file := "main", line := 4 }, accepted := Eq.refl true },
  { op := .label, args := [.ident "end"],
    location := { file := "main", line := 5 }, accepted := Eq.refl true }]

/-- The item is bound in the root and in the frame on top of it, and hidden by no further frame. -/
def boundTwice : Memory :=
  .scope (Bindings.empty.insert "y" (.int 5))
    (.scope (Bindings.empty.insert "x" (.int 6))
      (.root ((Bindings.empty.insert "xs" (.vector [.int 1, .int 2])).insert "x" (.int 7))))

/-- The machine before the loop. -/
def beforeIdleLoop : Machine (Array String) :=
  { start idleLoop #[] with memory := boundTwice }

/-- The loop over the two numbers. -/
def idleRounds : Loop :=
  { item := "x", items := [.int 1, .int 2], body := "body", escape := "end", next := 0 }

/-- The trap that the body sets for itself. -/
def idleTrap : Trap :=
  { label := "other", resumeAt := 3, loop := none }

/-- The rounds start after one step and after four. -/
theorem roundStart_of_idleLoop
    {k : Nat}
    (hk : k < 2) :
    RoundStart idleLoop beforeIdleLoop idleRounds k (3 * k + 1)
      (beforeIdleLoop.run idleLoop none (3 * k + 1)).machine := by
  obtain rfl | rfl : k = 0 ∨ k = 1 := by omega
  · exact .first rfl
  · refine .next (j := 2) (.first rfl) rfl ⟨rfl, rfl, [idleTrap], rfl, ?_⟩ ?_ rfl
    · simp [idleTrap, Trap.loopLabel]
    · intro i hi q hq hend
      interval_cases i <;> cases hq <;> exact absurd hend.action (by decide)

theorem endsQuietly_of_idleLoop
    {k t : Nat}
    {m : Machine (Array String)}
    (hk : k < 2)
    (h : RoundStart idleLoop beforeIdleLoop idleRounds k t m) :
    EndsQuietly idleLoop beforeIdleLoop idleRounds k m := by
  obtain ⟨-, rfl⟩ := h.unique (roundStart_of_idleLoop hk)
  obtain rfl | rfl : k = 0 ∨ k = 1 := by omega
  all_goals
    refine endsQuietly_of_unchanged (j := 2) [idleTrap] rfl rfl ?_ rfl rfl ?_
    · intro i hi q hq
      interval_cases i <;> cases hq <;> rfl
    · simp [idleTrap, Trap.loopLabel]

/-- The frame in the middle has the last number, and the two others are as before. -/
theorem memory_after_idleLoop :
    ∃ t m,
      beforeIdleLoop.run idleLoop none t = .running m ∧
      m.position = 4 ∧
      m.traps = [] ∧
      m.memory.frames =
        [Bindings.empty.insert "y" (.int 5),
          (Bindings.empty.insert "x" (.int 6)).insert "x" (.int 2),
          (Bindings.empty.insert "xs" (.vector [.int 1, .int 2])).insert "x" (.int 7)] := by
  have haction :
      idleLoop.action? beforeIdleLoop.position =
        some (.each "x" (.ident "xs") "body" "end") := rfl
  have htarget :
      beforeIdleLoop.memory.deref (.ident "xs") = .ok (.vector [.int 1, .int 2]) := rfl
  have hitems : ∀ v ∈ [Value.int 1, .int 2], v.isIdent = false := by
    simp [Value.isIdent]
  have hbody : idleLoop.label? "body" = some 1 := rfl
  have hescape : idleLoop.label? "end" = some 4 := rfl
  have hloop :
      idleRounds =
        { item := "x", items := [.int 1, .int 2], body := "body", escape := "end", next := 0 } :=
    rfl
  obtain ⟨t, m, -, hm, -, hposition, htraps, -, hlast⟩ :=
    memory_after_each haction htarget hitems hbody hescape hloop
      fun k hk t m => endsQuietly_of_idleLoop hk
  obtain ⟨inner, frame, outer, hframes, hinner, hframe, hmemory⟩ := hlast (.int 2) rfl rfl
  refine ⟨t, m, hm, hposition, htraps, ?_⟩
  rw [hmemory]
  -- the first frame that binds the item is the second one
  rcases inner with _ | ⟨f, _ | ⟨g, rest⟩⟩
  · cases hframes
    exact absurd hframe (by decide)
  · cases hframes
    rfl
  · have hsecond : Bindings.empty.insert "x" (.int 6) = g :=
      Option.some.inj (congrArg (·[1]?) hframes)
    exact absurd (hinner g (by simp)) (by rw [← hsecond]; decide)

end Machine
end Trapline
