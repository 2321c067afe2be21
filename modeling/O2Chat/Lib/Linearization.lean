import Mathlib.Data.List.Nodup
import O2Chat.Lib.Interleaving

/-!
# Linearization

A sequential object serves one command after the other: `spec c a r b` says that the
command `c` may take it from `a` to `b` with the answer `r`. The programs of a pool
implement it when each of them takes effect in one of its events: there the abstract
state moves as `spec` says, in its other events it does not move, and what it shows
agrees with the answer.

`point` names the event in which a program takes effect, as soon as it happens. The
commands taken in the order of these events are a log that the object can serve
(`Explains`). A step of a thread appends to the log at most one entry, which is its
own, so that whoever has finished stands before whoever has not started.
-/
namespace O2Chat.Lib.Linearization

open Interleaving

variable {σ τ Op A R : Type} {Res : Op → Type}

structure Object (σ τ Op : Type) (Res : Op → Type) (A R : Type) where
  abs : σ → A
  spec : τ → A → R → A → Prop
  /-- `point c before e`: the program of `c` takes effect in `e`, after the events
  `before`, and this is its answer -/
  point : τ → List (Event σ Op Res) → Event σ Op Res → Option R
  /-- the operation shows something to a client -/
  visible : Op → Prop
  agrees : R → Op → Prop

variable (obj : Object σ τ Op Res A R)

/-- The history of a program that has taken effect with this answer, or not yet. -/
inductive Linear (c : τ) : Option R → List (Event σ Op Res) → Prop
  | start : Linear c none []
  | silent {r : Option R} {h : List (Event σ Op Res)} {e : Event σ Op Res} : Linear c r h →
      obj.point c h e = none → obj.abs e.post = obj.abs e.pre → ¬ obj.visible e.op →
      Linear c r (e :: h)
  | effect {r : R} {h : List (Event σ Op Res)} {e : Event σ Op Res} : Linear c none h →
      obj.point c h e = some r → obj.spec c (obj.abs e.pre) r (obj.abs e.post) →
      ¬ obj.visible e.op → Linear c (some r) (e :: h)
  | shows {r : R} {h : List (Event σ Op Res)} {e : Event σ Op Res} : Linear c (some r) h →
      obj.point c h e = none → obj.abs e.post = obj.abs e.pre → obj.agrees r e.op →
      Linear c (some r) (e :: h)

/-- A command in the log, with the thread that has served it. -/
structure Entry (τ R : Type) where
  thread : Nat
  command : τ
  answer : R
  deriving DecidableEq

/-- The object serves the commands of the log in order and gives these answers. -/
inductive Serves (spec : τ → A → R → A → Prop) (a : A) : List (Entry τ R) → A → Prop
  | nil : Serves spec a [] a
  | snoc {log : List (Entry τ R)} {b c : A} {en : Entry τ R} : Serves spec a log b →
      spec en.command b en.answer c → Serves spec a (log ++ [en]) c

/-- What has been served of one thread. -/
def ofThread (log : List (Entry τ R)) (i : Nat) : List R :=
  (log.filter (·.thread = i)).map (·.answer)

/-- The log explains the pool: the object gets from `a` to its present state by it,
and it holds exactly the threads that have taken effect. -/
structure Explains (a : A) (p : Pool σ τ Op Res) (log : List (Entry τ R)) : Prop where
  serves : Serves obj.spec a log (obj.abs p.state)
  owner : ∀ en ∈ log, ∃ t, p.threads[en.thread]? = some t ∧ t.tag = en.command
  threads : ∀ i t, p.threads[i]? = some t →
    ∃ r, Linear obj t.tag r t.hist ∧ ofThread log i = r.toList

variable {obj}

section

variable {c : τ} {h : List (Event σ Op Res)}

theorem Linear.unique {r r' : Option R} (hr : Linear obj c r h) (hr' : Linear obj c r' h) :
    r = r' := by
  induction hr generalizing r' with
  | start =>
    cases hr'
    rfl
  | silent _ hpoint _ _ ih =>
    cases hr' with
    | silent h' _ _ _ => exact ih h'
    | effect _ hpoint' _ _ => exact absurd (hpoint.symm.trans hpoint') (by simp)
    | shows h' _ _ _ => exact ih h'
  | effect _ hpoint _ _ _ =>
    cases hr' with
    | silent _ hpoint' _ _ => exact absurd (hpoint.symm.trans hpoint') (by simp)
    | effect _ hpoint' _ _ => exact hpoint.symm.trans hpoint'
    | shows _ hpoint' _ _ => exact absurd (hpoint.symm.trans hpoint') (by simp)
  | shows _ hpoint _ _ ih =>
    cases hr' with
    | silent h' _ _ _ => exact ih h'
    | effect _ hpoint' _ _ => exact absurd (hpoint.symm.trans hpoint') (by simp)
    | shows h' _ _ _ => exact ih h'

/-- Nothing is shown before the program takes effect. -/
theorem Linear.visible {r : Option R} (hr : Linear obj c r h) {e : Event σ Op Res}
    (he : e ∈ h) (hv : obj.visible e.op) : ∃ a, r = some a ∧ obj.agrees a e.op := by
  induction hr with
  | start => cases he
  | silent _ _ _ hnot ih =>
    rcases List.mem_cons.mp he with rfl | he
    · exact absurd hv hnot
    · exact ih he
  | effect _ _ _ hnot ih =>
    rcases List.mem_cons.mp he with rfl | he
    · exact absurd hv hnot
    · obtain ⟨a, hnone, -⟩ := ih he
      cases hnone
  | @shows r h e' hr' _ _ hagrees ih =>
    rcases List.mem_cons.mp he with rfl | he
    · exact ⟨r, rfl, hagrees⟩
    · exact ih he

end

theorem ofThread_append (log log' : List (Entry τ R)) (i : Nat) :
    ofThread (log ++ log') i = ofThread log i ++ ofThread log' i := by simp [ofThread]

/-- What the object keeps holds whatever it has served. -/
theorem Serves.invariant {spec : τ → A → R → A → Prop} {a b : A} {log : List (Entry τ R)}
    {I : List (Entry τ R) → A → Prop} (h : Serves spec a log b) (h0 : I [] a)
    (hstep : ∀ log b en c, I log b → spec en.command b en.answer c → I (log ++ [en]) c) :
    I log b := by
  induction h with
  | nil => exact h0
  | snoc _ hs ih => exact hstep _ _ _ _ ih hs

theorem Serves.of_append {spec : τ → A → R → A → Prop} {a c : A} {log log' : List (Entry τ R)}
    (h : Serves spec a (log ++ log') c) : ∃ b, Serves spec a log b ∧ Serves spec b log' c := by
  generalize hall : log ++ log' = all at h
  induction h generalizing log' with
  | nil =>
    obtain ⟨rfl, rfl⟩ := List.append_eq_nil_iff.mp hall
    exact ⟨a, .nil, .nil⟩
  | @snoc all b' c en h hstep ih =>
    rcases List.eq_nil_or_concat log' with rfl | ⟨init, last, rfl⟩
    · rw [List.append_nil] at hall
      exact ⟨c, hall ▸ .snoc h hstep, .nil⟩
    · rw [List.concat_eq_append, ← List.append_assoc] at hall
      obtain ⟨hinit, hlast⟩ := List.append_inj' hall rfl
      obtain rfl := List.singleton_inj.mp hlast
      rw [List.concat_eq_append]
      obtain ⟨b, hb, hb'⟩ := ih hinit
      exact ⟨b, hb, .snoc hb' hstep⟩

/-- What was served before an entry, the entry, and what was served after it. -/
theorem Serves.of_mem {spec : τ → A → R → A → Prop} {a d : A} {log : List (Entry τ R)}
    (h : Serves spec a log d) {en : Entry τ R} (hen : en ∈ log) : ∃ before after b c,
      Serves spec a before b ∧ spec en.command b en.answer c ∧ Serves spec c after d := by
  induction h with
  | nil => cases hen
  | @snoc log b' d' last h hstep ih =>
    rcases List.mem_append.mp hen with hold | hnew
    · obtain ⟨before, after, b, c, hb, hs, hc⟩ := ih hold
      exact ⟨before, after ++ [last], b, c, hb, hs, .snoc hc hstep⟩
    · obtain rfl := List.mem_singleton.mp hnew
      exact ⟨log, [], b', d', h, hstep, .nil⟩

section

variable {exec : (o : Op) → σ → Option (σ × Res o)} {a : A} {p p' : Pool σ τ Op Res}
  {log : List (Entry τ R)}

theorem Explains.spawn (hx : Explains obj a p log) (c : τ) (prog : Prog Op Res Unit) :
    Explains obj a (p.spawn c prog) log := by
  refine ⟨hx.serves, ?_, ?_⟩
  · intro en hen
    obtain ⟨t, ht, htag⟩ := hx.owner en hen
    have hlt := (List.getElem?_eq_some_iff.mp ht).1
    exact ⟨t, by rw [Pool.spawn, List.getElem?_append_left hlt]; exact ht, htag⟩
  · intro i t ht
    rcases Nat.lt_or_ge i p.threads.length with hold | hnew
    · rw [Pool.spawn, List.getElem?_append_left hold] at ht
      exact hx.threads i t ht
    · rw [Pool.spawn, List.getElem?_append_right hnew] at ht
      obtain ⟨-, rfl⟩ := List.getElem?_eq_some_iff.mp ht
      refine ⟨none, by simpa using Linear.start, ?_⟩
      -- an entry of this thread would have an owner
      simp only [ofThread, Option.toList_none, List.map_eq_nil_iff, List.filter_eq_nil_iff,
        decide_eq_true_eq]
      rintro en hen rfl
      obtain ⟨t, ht', -⟩ := hx.owner en hen
      have := (List.getElem?_eq_some_iff.mp ht').1
      omega

/-- The surroundings may change what the object does not see. -/
theorem Explains.extend (hx : Explains obj a p log) {s : σ} (hs : obj.abs s = obj.abs p.state) :
    Explains obj a { p with state := s } log :=
  ⟨hs ▸ hx.serves, hx.owner, hx.threads⟩

/-- A step of a thread that keeps its history linear serves at most that thread, once and
not in the step that shows the answer. -/
theorem Explains.work (hx : Explains obj a p log) {i : Nat} {t : Thread σ τ Op Res}
    {e : Event σ Op Res} (hw : p.work exec i = some (p', t, e))
    (hl : ∃ r, Linear obj t.tag r (e :: t.hist)) : ∃ ext, Explains obj a p' (log ++ ext) ∧
      (ext = [] ∨ ∃ r, ext = [⟨i, t.tag, r⟩] ∧ Linear obj t.tag none t.hist ∧
        ¬ obj.visible e.op) := by
  obtain ⟨hi, k, -, hpre, -, rfl⟩ := Pool.work_cases hw
  obtain ⟨r, hr, hof⟩ := hx.threads i t hi
  have hlt := (List.getElem?_eq_some_iff.mp hi).1
  have howner : ∀ en ∈ log, ∃ u, (p.threads.set i ⟨t.tag, k e.res, e :: t.hist⟩)[en.thread]? =
      some u ∧ u.tag = en.command := by
    intro en hen
    obtain ⟨u, hu, htag⟩ := hx.owner en hen
    by_cases heq : i = en.thread
    · subst heq
      obtain rfl := Option.some.inj (hi.symm.trans hu)
      exact ⟨_, List.getElem?_set_self hlt, htag⟩
    · exact ⟨u, by rw [List.getElem?_set_ne heq]; exact hu, htag⟩
  -- the log of the other threads stays, and the stepping thread gets its answer
  have hthreads : ∀ ext r', (∀ j, j ≠ i → ofThread ext j = []) →
      Linear obj t.tag r' (e :: t.hist) → r.toList ++ ofThread ext i = r'.toList →
      ∀ j u, (p.threads.set i ⟨t.tag, k e.res, e :: t.hist⟩)[j]? = some u →
        ∃ r, Linear obj u.tag r u.hist ∧ ofThread (log ++ ext) j = r.toList := by
    intro ext r' hother hr' hans j u hu
    rw [ofThread_append]
    by_cases heq : i = j
    · subst heq
      rw [List.getElem?_set_self hlt] at hu
      obtain rfl := Option.some.inj hu
      exact ⟨r', hr', by rw [hof, hans]⟩
    · rw [List.getElem?_set_ne heq] at hu
      rw [hother j (Ne.symm heq), List.append_nil]
      exact hx.threads j u hu
  obtain ⟨r', hr'⟩ := hl
  cases hr' with
  | silent h' hpoint habs hnot =>
    obtain rfl := hr.unique h'
    refine ⟨[], ⟨?_, by simpa using howner, ?_⟩, Or.inl rfl⟩
    · rw [List.append_nil, habs, hpre]
      exact hx.serves
    · exact hthreads [] r (by simp [ofThread]) (.silent h' hpoint habs hnot) (by simp [ofThread])
  | @effect ans _ _ h' hpoint hspec hnot =>
    obtain rfl := hr.unique h'
    refine ⟨[⟨i, t.tag, ans⟩], ⟨.snoc hx.serves (hpre ▸ hspec), ?_, ?_⟩,
      Or.inr ⟨ans, rfl, h', hnot⟩⟩
    · intro en hen
      rcases List.mem_append.mp hen with hold | hnew
      · exact howner en hold
      · obtain rfl := List.mem_singleton.mp hnew
        exact ⟨_, List.getElem?_set_self hlt, rfl⟩
    · refine hthreads [⟨i, t.tag, ans⟩] (some ans) (fun j hj => ?_)
        (.effect h' hpoint hspec hnot) (by simp [ofThread])
      simp [ofThread, Ne.symm hj]
  | shows h' hpoint habs hagrees =>
    obtain rfl := hr.unique h'
    refine ⟨[], ⟨?_, by simpa using howner, ?_⟩, Or.inl rfl⟩
    · rw [List.append_nil, habs, hpre]
      exact hx.serves
    · exact hthreads [] _ (by simp [ofThread]) (.shows h' hpoint habs hagrees) (by simp [ofThread])

/-- No command is served twice. -/
theorem Explains.once (hx : Explains obj a p log) : (log.map (·.thread)).Nodup := by
  rw [List.nodup_iff_count_le_one]
  intro i
  have hcount : (log.map (·.thread)).count i = (ofThread log i).length := by
    rw [ofThread, List.length_map, ← List.countP_eq_length_filter, List.count, List.countP_map]
    exact List.countP_congr fun en _ => by simp
  rw [hcount]
  by_cases hany : ∃ en ∈ log, en.thread = i
  · obtain ⟨en, hen, rfl⟩ := hany
    obtain ⟨t, ht, -⟩ := hx.owner en hen
    obtain ⟨r, -, hof⟩ := hx.threads _ t ht
    rw [hof]
    cases r <;> simp
  · have hnone : log.filter (fun en => en.thread = i) = [] := by
      rw [List.filter_eq_nil_iff]
      intro en hen heq
      exact hany ⟨en, hen, by simpa using heq⟩
    simp [ofThread, hnone]

theorem Explains.mem_log (hx : Explains obj a p log) {i : Nat} {t : Thread σ τ Op Res}
    (ht : p.threads[i]? = some t) {r : R} (hr : r ∈ ofThread log i) : ⟨i, t.tag, r⟩ ∈ log := by
  obtain ⟨en, hen, rfl⟩ := List.mem_map.mp hr
  obtain ⟨hlog, hthread⟩ := List.mem_filter.mp hen
  obtain rfl : en.thread = i := by simpa using hthread
  obtain ⟨u, hu, htag⟩ := hx.owner en hlog
  obtain rfl := Option.some.inj (ht.symm.trans hu)
  rw [htag]
  exact hlog

/-- Whatever a thread shows agrees with the answer in the log. -/
theorem Explains.shown (hx : Explains obj a p log) {i : Nat} {t : Thread σ τ Op Res}
    (ht : p.threads[i]? = some t) {e : Event σ Op Res} (he : e ∈ t.hist)
    (hv : obj.visible e.op) : ∃ r, ⟨i, t.tag, r⟩ ∈ log ∧ obj.agrees r e.op := by
  obtain ⟨r, hr, hof⟩ := hx.threads i t ht
  obtain ⟨ans, rfl, hagrees⟩ := hr.visible he hv
  exact ⟨ans, hx.mem_log ht (by rw [hof]; simp), hagrees⟩

/-- Who stands in the log has started. -/
theorem Explains.started (hx : Explains obj a p log) {en : Entry τ R} (hen : en ∈ log) :
    ∃ t, p.threads[en.thread]? = some t ∧ t.tag = en.command ∧ t.hist ≠ [] := by
  obtain ⟨t, ht, htag⟩ := hx.owner en hen
  refine ⟨t, ht, htag, fun hempty => ?_⟩
  obtain ⟨r, hr, hof⟩ := hx.threads en.thread t ht
  rw [hempty] at hr
  obtain rfl := hr.unique .start
  have hmem : en.answer ∈ ofThread log en.thread :=
    List.mem_map.mpr ⟨en, List.mem_filter.mpr ⟨hen, by simp⟩, rfl⟩
  rw [hof] at hmem
  cases hmem

/-- A thread that has taken effect stands in the log. -/
theorem Explains.served (hx : Explains obj a p log) {i : Nat} {t : Thread σ τ Op Res}
    (ht : p.threads[i]? = some t) {r : R} (hr : Linear obj t.tag (some r) t.hist) :
    ⟨i, t.tag, r⟩ ∈ log := by
  obtain ⟨r', hr', hof⟩ := hx.threads i t ht
  obtain rfl := hr.unique hr'
  exact hx.mem_log ht (by rw [hof]; simp)

end

end O2Chat.Lib.Linearization
