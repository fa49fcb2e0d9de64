import StagedScript.CommandLine.Value
import StagedScript.Proofs.Staging.Calls
import StagedScript.Proofs.Value.WrittenForm

/-!
# Written values are read back

The written form of a value is read by two readers: as the source of a module,
and as an argument on the command line.  An argument is a value only if it is a
literal, and then it is the value that the literal has in a program.
-/

namespace StagedScript

namespace CommandLine

open Evaluation Run
open Staging (execBlock_single)
open Syntax (Constant Expr UnaryOp stripItems)

variable {s : Services} {scope : Scope} {m m' : Machine}

/-! ## Literals are evaluated to their values -/

section Bind

variable {α β : Type} {x : OptionT Run α} {f : α → OptionT Run β}

theorem run_bind_of_some {a : α} (h : x.run m = .ok (some a) m') :
    (x >>= f).run m = (f a).run m' := by
  rw [OptionT.run_bind, Option.elimM, bind_of_ok h]
  rfl

theorem exists_of_bind_some {b : β} {m'' : Machine} (h : (x >>= f).run m = .ok (some b) m'') :
    ∃ a m', x.run m = .ok (some a) m' ∧ (f a).run m' = .ok (some b) m'' := by
  rw [OptionT.run_bind, Option.elimM] at h
  obtain ⟨found, m', hx, hf⟩ := bind_ok h
  cases found with
  | none => exact nomatch hf
  | some a => exact ⟨a, m', hx, hf⟩

theorem exists_of_bind_liftM {y : α → Run β} {b : β} {m'' : Machine}
    (h : (x >>= fun a => liftM (y a)).run m = .ok (some b) m'') :
    ∃ a m', x.run m = .ok (some a) m' ∧ y a m' = .ok b m'' := by
  obtain ⟨a, m', hx, hlift⟩ := exists_of_bind_some h
  refine ⟨a, m', hx, ?_⟩
  obtain ⟨b', m₁, hy, hb⟩ := bind_ok (x := y a) hlift
  cases hb
  exact hy

end Bind

/-- The signed number that is not the least integer without its sign. -/
theorem signed?_neg_int {n : Int64} (hn : n ≠ Int64.minValue) :
    signed? .neg (.int n) = some (.ok (.int (-n))) := by
  have hvalue := Syntax.Int64.toInt_neg_of_ne hn
  rw [signed?, Integer.neg, ← hvalue, Integer.checked_toInt]
  rfl

/-- A literal with a sign is a number with a minus sign, and its value is the negated number. -/
theorem constant_of_literalValue_unary {op : UnaryOp} {operand : Expr} {span : Text.Span}
    {v : Value} (h : (literalValue (.unary op operand span)).run m = .ok (some v) m') :
    ∃ c c' place, op = .neg ∧ operand = .constant c place ∧ signed? .neg c = some (.ok c') ∧
      v = .constant c' ∧ m' = m := by
  unfold literalValue at h
  split at h
  · next heq => exact nomatch heq
  · next n place _ heq =>
    cases heq
    split at h
    · exact nomatch h
    · next hn =>
      cases h
      exact ⟨_, _, place, rfl, rfl, signed?_neg_int hn, rfl, rfl⟩
  · next x place _ heq =>
    cases heq
    cases h
    exact ⟨_, _, place, rfl, rfl, rfl, rfl, rfl⟩
  · next heq => exact nomatch heq
  · next heq => exact nomatch heq
  · exact nomatch h

mutual

/-- If an expression is a literal, its value in any scope is that of the literal. -/
theorem eval_of_literalValue (e : Expr) {v : Value} {m m' : Machine}
    (h : (literalValue e).run m = .ok (some v) m') : eval s scope e m = .ok v m' := by
  match e, h with
  | .constant c _, h =>
    cases h
    rfl
  | .unary op operand _, h =>
    obtain ⟨c, c', place, rfl, rfl, hsigned, rfl, rfl⟩ := constant_of_literalValue_unary h
    exact congrFun (eval_neg hsigned s scope) m'
  | .tuple items _, h =>
    obtain ⟨vs, m₁, hvs, hnew⟩ := exists_of_bind_liftM h
    rw [eval, bind_of_ok (evalAll_of_literalValues items hvs)]
    exact hnew
  | .list items _, h =>
    obtain ⟨vs, m₁, hvs, hnew⟩ := exists_of_bind_liftM h
    rw [eval, bind_of_ok (evalAll_of_literalValues items hvs)]
    exact hnew
  | .name _ _, h | .formatted _ _, h | .dict _ _, h | .member _ _ _, h | .subscript _ _ _, h
  | .call _ _ _, h | .binary _ _ _ _, h | .conditional _ _ _ _, h => exact nomatch h

/-- The same of the items of a literal. -/
theorem evalAll_of_literalValues (es : List Expr) {vs : List Value} {m m' : Machine}
    (h : (literalValues es).run m = .ok (some vs) m') : evalAll s scope es m = .ok vs m' := by
  match es, h with
  | [], h =>
    cases h
    rfl
  | e :: es, h =>
    obtain ⟨v, m₁, hv, hrest⟩ := exists_of_bind_some h
    obtain ⟨vs, m₂, hvs, hall⟩ := exists_of_bind_some hrest
    cases hall
    rw [evalAll, bind_of_ok (eval_of_literalValue e hv),
      bind_of_ok (evalAll_of_literalValues es hvs)]
    rfl

end

/-! ## Literals of data -/

/-- Places do not matter for what is a literal. -/
theorem literalValue_unary_bare (op : UnaryOp) (operand : Expr) (span : Text.Span) :
    literalValue (Expr.unary op operand span).bare = literalValue (.unary op operand span) := by
  cases op with
  | neg =>
    cases operand with
    | constant c _ => cases c <;> rfl
    | _ => rfl
  | _ => rfl

mutual

theorem literalValue_bare (e : Expr) : literalValue e.bare = literalValue e := by
  match e with
  | .unary op operand span => exact literalValue_unary_bare op operand span
  | .tuple items _ | .list items _ =>
    rw [Expr.bare, Expr.strip, literalValue, literalValue, literalValues_bare items]
  | .constant _ _ | .name _ _ | .formatted _ _ | .dict _ _ | .member _ _ _ | .subscript _ _ _
  | .call _ _ _ | .binary _ _ _ _ | .conditional _ _ _ _ => rfl

theorem literalValues_bare (es : List Expr) :
    literalValues (stripItems .literal es) = literalValues es := by
  match es with
  | [] => rfl
  | e :: es =>
    rw [stripItems, literalValues, literalValues, show literalValue _ = _ from literalValue_bare e,
      literalValues_bare es]

end

/-- The text of a constant is read as a literal. -/
theorem literalValue_plain (c : Constant) (h : (Datum.constant c).IsLiteral) (m : Machine) :
    ∃ v m', (literalValue c.plain).run m = .ok (some v) m' := by
  match c, h with
  | .none, _ | .bool _, _ | .string _, _ => exact ⟨_, _, rfl⟩
  | .int n, _ =>
    rw [Constant.plain]
    split
    · next hn =>
      have hne : -n ≠ Int64.minValue := by
        intro hmin
        apply hn.2
        rw [← Int64.neg_neg (a := n), hmin]
        rfl
      refine ⟨.int (- -n), m, ?_⟩
      rw [Expr.literal, literalValue, if_neg hne]
      rfl
    · exact ⟨_, _, rfl⟩
  | .float x, h =>
    obtain ⟨b, hx⟩ := Decimal.decode_of_isFinite h
    simp only [Constant.plain, hx]
    split <;> exact ⟨_, _, rfl⟩

mutual

/-- The literal of constants and sequences, read back, is a literal. -/
theorem literalValue_expression (d : Datum) (h : d.IsSequential) (m : Machine) :
    ∃ v m', (literalValue d.expression.plain).run m = .ok (some v) m' := by
  match d, h with
  | .constant c, h => exact literalValue_plain c h m
  | .tuple _ items, h =>
    obtain ⟨vs, m₁, hvs⟩ := literalValues_itemExpressions items h m
    exact ⟨_, _, run_bind_of_some hvs⟩
  | .list _ items, h =>
    obtain ⟨vs, m₁, hvs⟩ := literalValues_itemExpressions items h m
    exact ⟨_, _, run_bind_of_some hvs⟩

theorem literalValues_itemExpressions (items : List Datum) (h : Datum.AreSequential items)
    (m : Machine) : ∃ vs m',
      (literalValues (stripItems Constant.plain (Datum.itemExpressions items))).run m =
        .ok (some vs) m' := by
  match items, h with
  | [], _ => exact ⟨_, _, rfl⟩
  | item :: items, h =>
    obtain ⟨v, m₁, hv⟩ := literalValue_expression item h.1 m
    obtain ⟨vs, m₂, hvs⟩ := literalValues_itemExpressions items h.2 m₁
    exact ⟨v :: vs, m₂, (run_bind_of_some hv).trans (run_bind_of_some hvs)⟩

end

/-- The value has the contents of the datum and is equal to every value that has them. -/
def Copies (h : Heap) (v : Value) (d : Datum) : Prop :=
  (h.view v).contents = d.contents ∧ ∀ w, (h.view w).contents = d.contents → h.equal v w = true

theorem copies_of_settled {h : Heap} {v : Value} {d : Datum} (hliteral : d.IsLiteral)
    (hproper : d.Proper) (hv : h.Settled v d) : Copies h v d :=
  ⟨hv.shows, fun _ hw => Heap.equal_of_contents hliteral hproper hv.shows hw⟩

theorem name_of_bare {e : Expr} {name : String} (h : e.bare = .named name) :
    ∃ place, e = .name name place := by
  cases e with
  | name id place =>
    obtain ⟨rfl, -⟩ := Expr.name.inj h
    exact ⟨place, rfl⟩
  | _ => exact Expr.noConfusion h

/-- A module that only assigns a literal to a name is run to its end, and the name is bound to the
value.  No container is changed. -/
theorem execBody_assignment {d : Datum} (hliteral : d.IsLiteral) (hproper : d.Proper)
    {name : String} {target value : Expr} (htarget : target.bare = .named name)
    (hvalue : value.bare = d.expression.plain) (span : Text.Span) (s : Services)
    (spec : ModuleSpec) (m : Machine) : ∃ loaded v m',
      execBody s spec [.assign target value span] m = .ok loaded m' ∧
        (m'.heap.frame loaded.globals).get? name = some v ∧ m.heap.Extends m'.heap ∧
          m'.heap.Settled v d := by
  let r : Ref .frame := (m.heap.addFrame spec.globals).1
  let m₁ : Machine := { m with heap := (m.heap.addFrame spec.globals).2 }
  have hframe : Run.changeHeap (·.addFrame spec.globals) m = .ok r m₁ := rfl
  obtain ⟨v, m₂, heval, hadds, hsettled⟩ := builds_expression s [r] d hliteral hproper m₁
  rw [← hvalue, eval_bare] at heval
  obtain ⟨place, rfl⟩ := name_of_bare htarget
  let m₃ : Machine := { m₂ with heap := m₂.heap.setName r name v }
  have hblock : execBlock s [r] [.assign (.name name place) value span] m₁ = .ok .normal m₃ := by
    rw [execBlock_single, exec, bind_of_ok heval]
    rfl
  -- Containers stay as they are when a frame is added or a name is bound.
  have hfirst : m.heap.Extends m₁.heap := ⟨List.prefix_rfl, List.prefix_rfl, List.prefix_rfl, rfl⟩
  have hlast : m₂.heap.Extends m₃.heap := ⟨List.prefix_rfl, List.prefix_rfl, List.prefix_rfl, rfl⟩
  refine ⟨⟨spec.name, r⟩, v, { m₃ with modules := m₃.modules.insert spec.name ⟨spec.name, r⟩ },
    ?_, ?_, (hfirst.trans hadds.heap).trans hlast, hsettled.mono hlast⟩
  · rw [execBody, bind_of_ok hframe, bind_of_ok hblock]
    rfl
  · have hr : r.index < m₂.heap.frames.size := by
      rw [hadds.frames]
      simp [r, m₁, Heap.addFrame]
    show ((m₂.heap.setName r name v).frame r).get? name = some v
    rw [Heap.frame_setName m₂.heap r r name v hr, if_pos rfl, Bindings.get?_set, if_pos rfl]

/-! ## Both readers -/

/-- The written form of a value built from constants, tuples, lists and dictionaries without numbers
that are infinite or undefined is read back: a module that assigns it to a name binds the name to a
value with the same contents, which is equal to every value with these contents.  Without
dictionaries, an argument with this text stands for such a value too.  Neither reader changes a
container that there was.  Whenever an argument is a literal, it stands for the value that its
expression has in a program. -/
theorem repr_reads_back :
    (∀ d : Datum, d.IsLiteral → d.Proper → (∀ x ∈ d.floats, Decimal.ReadsBack x) →
      (∀ (s : Services) (spec : ModuleSpec) (m : Machine), ∃ loaded v m',
        execSource s spec ("v = " ++ d.repr) m = .ok (.ok loaded) m' ∧
          (m'.heap.frame loaded.globals).get? "v" = some v ∧ m.heap.Extends m'.heap ∧
            Copies m'.heap v d) ∧
      (d.IsSequential → ∀ m, ∃ v m', argumentValue d.repr m = .ok v m' ∧
        m.heap.Extends m'.heap ∧ Copies m'.heap v d)) ∧
    ∀ (e : Expr) (v : Value) (m m' : Machine), (literalValue e).run m = .ok (some v) m' →
      ∀ (s : Services) (scope : Scope), eval s scope e m = .ok v m' := by
  refine ⟨fun d hliteral hproper hreads => ⟨fun s spec m => ?_, fun hsequential m => ?_⟩,
    fun e v m m' h s scope => eval_of_literalValue e h⟩
  · have hname : Syntax.isName "v" = true := by decide +kernel
    obtain ⟨target, value, span, hread, htarget, hvalue⟩ :=
      readModule_assignment hname hliteral hreads
    obtain ⟨loaded, v, m', hrun, hbound, hextends, hsettled⟩ :=
      execBody_assignment hliteral hproper htarget hvalue span s spec m
    refine ⟨loaded, v, m', ?_, hbound, hextends, copies_of_settled hliteral hproper hsettled⟩
    have htext : "v" ++ " = " ++ d.repr = "v = " ++ d.repr := rfl
    rw [execSource, ← htext, hread]
    change (execBody s spec _ >>= fun loaded => pure (Except.ok loaded)) m = _
    rw [bind_of_ok hrun]
    rfl
  · obtain ⟨e, hread, hbare⟩ := readExpr_repr hliteral hreads
    obtain ⟨v, m', hvalue⟩ := literalValue_expression d hsequential m
    rw [← hbare, Expr.bare, literalValue_bare] at hvalue
    -- What the argument stands for is what the expression has as its value.
    have heval : eval fullServices [] e m = .ok v m' := eval_of_literalValue e hvalue
    obtain ⟨v', m'', heval', hadds, hsettled⟩ :=
      builds_expression fullServices [] d hliteral hproper m
    rw [← hbare, eval_bare, heval] at heval'
    cases heval'
    refine ⟨v, m', ?_, hadds.heap, copies_of_settled hliteral hproper hsettled⟩
    rw [argumentValue, hread]
    change ((literalValue e).run >>= fun found => pure (found.getD (.string d.repr))) m = _
    rw [bind_of_ok hvalue]
    rfl

/-- A list of a string that is written in double quotes and of a tuple of one negative double. -/
theorem repr_reads_back_list :
    let d : Datum := .list ⟨0⟩ [.constant (.string "it's"), .tuple ⟨1⟩ [.constant (.float (-0.5))]]
    (∀ (s : Services) (spec : ModuleSpec) (m : Machine), ∃ loaded v m',
      execSource s spec "v = [\"it's\", (-0.5,)]" m = .ok (.ok loaded) m' ∧
        (m'.heap.frame loaded.globals).get? "v" = some v ∧ m.heap.Extends m'.heap ∧
          Copies m'.heap v d) ∧
    (∀ m, ∃ v m', argumentValue "[\"it's\", (-0.5,)]" m = .ok v m' ∧
      m.heap.Extends m'.heap ∧ Copies m'.heap v d) ∧
    ∀ (m : Machine) (s : Services) (scope : Scope),
      eval s scope (.unary .neg (.literal (.int 1)) .synthetic) m = .ok (.int (-1)) m := by
  have hdecode : Decimal.decode (-0.5) = .finite ⟨true, 2 ^ 52, -53⟩ := by decide +kernel
  have hdouble : Decimal.ReadsBack (-0.5) := by
    intro b hb
    rw [hdecode] at hb
    obtain rfl := Decimal.Parts.finite.inj hb
    decide +kernel
  have hfinite : Decimal.isFinite (-0.5) = true := by rw [Decimal.isFinite, hdecode]
  have hsequential : Datum.AreSequential
      [.constant (.string "it's"), .tuple ⟨1⟩ [.constant (.float (-0.5))]] :=
    ⟨trivial, ⟨hfinite, trivial⟩, trivial⟩
  have htext : (Datum.list ⟨0⟩ [.constant (.string "it's"),
      .tuple ⟨1⟩ [.constant (.float (-0.5))]]).repr = "[\"it's\", (-0.5,)]" := by decide +kernel
  obtain ⟨hback, hsame⟩ := repr_reads_back
  obtain ⟨hmodule, hargument⟩ := hback
    (.list ⟨0⟩ [.constant (.string "it's"), .tuple ⟨1⟩ [.constant (.float (-0.5))]])
    hsequential.areLiteral ⟨trivial, ⟨trivial, trivial⟩, trivial⟩
    (fun x hx => List.mem_singleton.mp hx ▸ hdouble)
  rw [htext] at hmodule hargument
  exact ⟨hmodule, hargument hsequential, fun m => hsame _ _ m m rfl⟩

end CommandLine

end StagedScript
