import PageAssembly.Proofs.Page.Rendering

/-!
Buffers that are used again and again. Whoever takes a buffer finds in it only what they have
written to it themselves, and a rendering gives back the buffer that it took, however it ends. So
nothing of what was rendered before can be seen in what is rendered later.
-/

namespace PageAssembly

namespace Pool

theorem size_get (pool : Pool) : pool.get.2.size = pool.size := by
  rw [get]
  split <;> rfl

theorem length_idle_get (pool : Pool) : pool.get.2.idle.length ≤ pool.idle.length := by
  rw [get]
  split
  · exact Nat.le_refl _
  · rename_i buffer idle same
    have longer := congrArg List.length same
    rw [List.length_cons] at longer
    exact Nat.le_of_lt (Nat.lt_of_succ_le (Nat.le_of_eq longer.symm))

theorem size_put (pool : Pool) (buffer : Buffer) : (pool.put buffer).size = pool.size := by
  rw [put]
  split <;> rfl

theorem length_idle_put (pool : Pool) (buffer : Buffer) :
    (pool.put buffer).idle.length =
      if buffer.capacity ≤ maxCapacity ∧ pool.idle.length < pool.size then pool.idle.length + 1
      else pool.idle.length := by
  rw [put]
  split <;> rfl

end Pool

/-- A buffer that has been taken from a pool, and all that has been written to it since. -/
structure Loan where
  buffer : Buffer
  written : Bytes

/-- A pool and the buffers that have been taken from it and not been put back. -/
structure Lending where
  pool : Pool
  loans : List Loan

namespace Lending

/-- What can be done with a pool and its buffers, in any order. A buffer that is put need not come
from the pool. -/
inductive Step : Lending → Lending → Prop where
  | take {pool : Pool} {loans : List Loan} :
      Step ⟨pool, loans⟩ ⟨pool.get.2, ⟨pool.get.1, []⟩ :: loans⟩
  | write {pool : Pool} {before after : List Loan} {loan : Loan} (bytes : Bytes) :
      Step ⟨pool, before ++ loan :: after⟩
        ⟨pool, before ++ ⟨loan.buffer.append bytes, loan.written ++ bytes⟩ :: after⟩
  | giveBack {pool : Pool} {before after : List Loan} {loan : Loan} :
      Step ⟨pool, before ++ loan :: after⟩ ⟨pool.put loan.buffer, before ++ after⟩
  | giveFresh {pool : Pool} {loans : List Loan} (capacity : Nat) :
      Step ⟨pool, loans⟩ ⟨pool.put (.ofCapacity capacity), loans⟩

/-- What can come of a new pool of this size. -/
inductive Reached (size : Nat) : Lending → Prop where
  | start : Reached size ⟨.ofSize size, []⟩
  | next {between after : Lending} (reached : Reached size between) (step : Step between after) :
      Reached size after

/-- The pool keeps to its size, and in each buffer is what was written to it since it was taken. -/
structure Sound (size : Nat) (lending : Lending) : Prop where
  sized : lending.pool.size = size
  bounded : lending.pool.idle.length ≤ size
  own : ∀ loan ∈ lending.loans, loan.buffer.content = loan.written

variable {size : Nat}

theorem sound_start (size : Nat) : Sound size ⟨.ofSize size, []⟩ := by
  constructor
  · rfl
  · exact Nat.zero_le size
  · exact List.forall_mem_nil _

theorem bounded_put {pool : Pool} (same : pool.size = size) (bounded : pool.idle.length ≤ size)
    (buffer : Buffer) : (pool.put buffer).idle.length ≤ size := by
  rw [Pool.length_idle_put]
  split <;> omega

theorem Sound.step {lending after : Lending} (sound : Sound size lending)
    (step : Step lending after) : Sound size after := by
  obtain ⟨same, bounded, own⟩ := sound
  cases step with
  | @take pool loans =>
      constructor
      · rw [pool.size_get, same]
      · exact Nat.le_trans pool.length_idle_get bounded
      · intro loan member
        rcases List.mem_cons.mp member with rfl | earlier
        · exact pool.get_empty
        · exact own loan earlier
  | @write pool before after loan bytes =>
      refine ⟨same, bounded, ?_⟩
      have mine := own loan (List.mem_append_right before List.mem_cons_self)
      intro other member
      rcases List.mem_append.mp member with earlier | here
      · exact own other (List.mem_append_left _ earlier)
      · rcases List.mem_cons.mp here with rfl | later
        · exact congrArg (· ++ bytes) mine
        · exact own other (List.mem_append_right before (List.mem_cons_of_mem loan later))
  | @giveBack pool before after loan =>
      constructor
      · rw [pool.size_put, same]
      · exact bounded_put same bounded loan.buffer
      · intro other member
        rcases List.mem_append.mp member with earlier | later
        · exact own other (List.mem_append_left _ earlier)
        · exact own other (List.mem_append_right before (List.mem_cons_of_mem loan later))
  | @giveFresh pool loans capacity =>
      constructor
      · rw [pool.size_put, same]
      · exact bounded_put same bounded (.ofCapacity capacity)
      · exact own

theorem Reached.sound {lending : Lending} (reached : Reached size lending) : Sound size lending := by
  induction reached with
  | start => exact sound_start size
  | next _ step induction => exact induction.step step

end Lending

namespace Page

/-- The pieces that a rendering writes to its buffer behind the hooks, whether or not it comes to
its end. -/
def written (page : Page) (left : Writer) (request : Request) (prepared : Json)
    (options : RenderOptions) : List Bytes :=
  if options.asJson then prepared.pieces.map Text.encode
  else
    match (page.environmentFor request options).result with
    | .error _ => []
    | .ok values => (page.outputInPieces left prepared options values).bytes

/-- What a rendering does with a pool. If a hook fails no buffer is taken; else the one that was
taken is put back, as large as it has become with what has been written to it. -/
inductive Borrows (page : Page) (pool : Pool) (writer : Writer) (request : Request) (data : Json)
    (options : RenderOptions) : Pool → Prop where
  | hookFailed {passed : List Hook} {failing : Hook} {failure : Failure} {left : Writer}
      (hooks : HooksFail request page.hooks writer (startData data) passed failing failure left) :
      Borrows page pool writer request data options pool
  | returned {left : Writer} {prepared : Json}
      (hooks : HooksRun request page.hooks writer (startData data) left prepared) :
      Borrows page pool writer request data options
        (pool.get.2.put (pool.get.1.appendAll (page.written left request prepared options)))

theorem renderJson_buffer (left : Writer) (buffer : Buffer) (prepared : Json) :
    (renderJson left buffer prepared).2.1 =
      buffer.appendAll (prepared.pieces.map Text.encode) := rfl

theorem renderHtml_buffer (page : Page) (left : Writer) (request : Request) (buffer : Buffer)
    (prepared : Json) {options : RenderOptions} (asked : options.asJson = false) :
    (page.renderHtml left request buffer prepared options).2.1 =
      buffer.appendAll (page.written left request prepared options) := by
  have ends := renderHtml_ends page left request buffer prepared options
  rw [written, asked, if_neg Bool.false_ne_true]
  generalize page.renderHtml left request buffer prepared options = ended at ends
  cases ends with
  | environment failed =>
      rw [failed]
      rfl
  | execution found _ => rw [found]
  | policy found _ _ => rw [found]
  | body found _ _ _ => rw [found]

theorem render_borrows (page : Page) (pool : Pool) (writer : Writer) (request : Request) (data : Json)
    (options : RenderOptions) :
    page.Borrows pool writer request data options
      (page.render pool writer request data options).pool := by
  rcases runHooks_spec request page.hooks writer (startData data) with
    ⟨left, prepared, run, _⟩ | ⟨passed, failing, failure, left, fail, same⟩
  · rw [run.render_eq pool options]
    cases asked : options.asJson with
    | true =>
        have buffer : (renderJson left pool.get.1 prepared).2.1 =
            pool.get.1.appendAll (page.written left request prepared options) := by
          rw [renderJson_buffer, written, asked, if_pos rfl]
        simp only [if_true, buffer]
        exact .returned run
    | false =>
        have buffer := page.renderHtml_buffer left request pool.get.1 prepared asked
        simp only [Bool.false_eq_true, if_false, buffer]
        exact .returned run
  · have untouched : (page.render pool writer request data options).pool = pool := by
      rw [render, same]
    rw [untouched]
    exact .hookFailed fail

end Page

namespace Lending

theorem Reached.write_all {size : Nat} {pool : Pool} {loans : List Loan} (pieces : List Bytes)
    {buffer : Buffer} {written : Bytes} (reached : Reached size ⟨pool, ⟨buffer, written⟩ :: loans⟩) :
    Reached size ⟨pool, ⟨buffer.appendAll pieces, written ++ pieces.flatten⟩ :: loans⟩ := by
  induction pieces generalizing buffer written with
  | nil => rwa [List.flatten_nil, List.append_nil]
  | cons piece pieces induction =>
      have first := reached.next (@Step.write pool [] loans ⟨buffer, written⟩ piece)
      rw [List.flatten_cons, ← List.append_assoc]
      exact induction first

theorem Reached.borrows {size : Nat} {pool after : Pool} {loans : List Loan} {page : Page}
    {writer : Writer} {request : Request} {data : Json} {options : RenderOptions}
    (reached : Reached size ⟨pool, loans⟩)
    (borrows : page.Borrows pool writer request data options after) :
    Reached size ⟨after, loans⟩ := by
  cases borrows with
  | hookFailed _ => exact reached
  | @returned left prepared _ =>
      have taken := reached.next .take
      have filled := taken.write_all (page.written left request prepared options)
      exact filled.next (@Step.giveBack _ [] loans _)

/-- Whatever has been done with a pool, renderings among it: a buffer that is taken is empty, and a
buffer that has been taken holds what was written to it since. The pool keeps no more buffers than
it may, and one more exactly if that is not too large and there is room. A rendering gives back the
buffer that it took, however it ends, and what it writes, runs and answers is what it would with a
new pool. -/
theorem buffers_carry_nothing_over {size : Nat} {lending : Lending} (reached : Reached size lending) :
    lending.pool.get.1.content = [] ∧
    (∀ loan ∈ lending.loans, loan.buffer.content = loan.written) ∧
    lending.pool.idle.length ≤ size ∧
    (∀ buffer : Buffer, (lending.pool.put buffer).idle.length =
      if buffer.capacity ≤ Pool.maxCapacity ∧ lending.pool.idle.length < size then
        lending.pool.idle.length + 1
      else lending.pool.idle.length) ∧
    ∀ (page : Page) (writer : Writer) (request : Request) (data : Json) (options : RenderOptions),
      let rendered := page.render lending.pool writer request data options
      page.Borrows lending.pool writer request data options rendered.pool ∧
      Reached size ⟨rendered.pool, lending.loans⟩ ∧
      ∀ other : Nat, rendered.Same (page.render (.ofSize other) writer request data options) := by
  have sound := reached.sound
  refine ⟨lending.pool.get_empty, sound.own, sound.bounded, ?_, ?_⟩
  · intro buffer
    rw [← sound.sized]
    exact lending.pool.length_idle_put buffer
  · intro page writer request data options rendered
    have borrows := page.render_borrows lending.pool writer request data options
    refine ⟨borrows, reached.borrows borrows, ?_⟩
    intro other
    exact page.render_same lending.pool (.ofSize other) writer request data options

def faltering : Page :=
  { main := "main"
    fragments := FragmentSet.empty.insert
      ⟨"main", [.text ⟨0, 0⟩ "secret", .invoke ⟨0, 0⟩ "missing" none]⟩
    css := [], js := [], hooks := [], environment := [], inline := true, place := "" }

def faltered : Pool :=
  (faltering.render (.ofSize 1) .buffer ⟨"GET", "/", .empty⟩ .null .standard).pool

theorem faltered_carries_nothing :
    faltered.idle = [⟨[], 8⟩] ∧ Reached 1 ⟨faltered, []⟩ ∧ faltered.get.1.content = [] ∧
      (faltering.render faltered .buffer ⟨"GET", "/", .empty⟩ .null .standard).Same
        (faltering.render (.ofSize 5) .buffer ⟨"GET", "/", .empty⟩ .null .standard) := by
  have kept : faltered.idle = [⟨[], 8⟩] := by decide
  obtain ⟨_, _, _, _, first⟩ := buffers_carry_nothing_over (@Reached.start 1)
  obtain ⟨_, reached, _⟩ := first faltering .buffer ⟨"GET", "/", .empty⟩ .null .standard
  obtain ⟨empty, _, _, _, later⟩ := buffers_carry_nothing_over reached
  obtain ⟨_, _, same⟩ := later faltering .buffer ⟨"GET", "/", .empty⟩ .null .standard
  exact ⟨kept, reached, empty, same 5⟩

end Lending

end PageAssembly
