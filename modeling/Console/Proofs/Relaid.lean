import Console.Proofs.Token.Relaying
import Console.Proofs.Whole

/-!
# Layout without meaning

A source laid out anew compiles to the same statements, on other lines maybe. Lines without tokens and
the ways to write blank space leave no trace, and columns matter only by their order.
-/

namespace Console

open Token Parse

/-- What a script is read as. -/
theorem tokenize_script {source : String} {tokens : List Token}
    (lexed : tokenize source .script = .ok tokens) :
    ∃ last, run (.ofString source) = .ok last ∧ tokens = finish last true := by
  unfold tokenize at lexed
  cases read : run (.ofString source) with
  | error error =>
    rw [read] at lexed
    cases lexed
  | ok last =>
    rw [read] at lexed
    cases lexed
    exact ⟨last, rfl, rfl⟩

/-- Layout that carries no meaning is inert. A source that compiles has the layout that it is written in.
In any other one, with columns in the same order, it compiles to the same statements up to their lines. -/
theorem layout_is_inert (source : String) (program : Program)
    (compiled : Program.compile source .script = .ok program) :
    Relaid id (.ofString source) source.toList ∧
    ∀ (f : Nat → Nat) (source' : String), StrictMono f → f 0 = 0 →
      Relaid f (.ofString source) source'.toList →
      ∃ program', Program.compile source' .script = .ok program' ∧
        program'.future = program.future ∧
        SameBody (fun _ => 0) (fun _ => 0) program.body program'.body := by
  cases lexed : tokenize source .script with
  | error error =>
    rw [Program.compile_of_error lexed] at compiled
    cases compiled
  | ok tokens =>
    obtain ⟨last, read, rfl⟩ := tokenize_script lexed
    rw [Program.compile_of_tokenize lexed] at compiled
    refine ⟨.refl (fun _ => rfl) read, fun f source' mono zero relaid => ?_⟩
    obtain ⟨last₁, last', read₁, read', akin⟩ :=
      relaid.run mono zero (akin_ofString .any f source source') (rest_ofString source')
    obtain rfl : last = last₁ := Except.ok.inj (read.symm.trans read₁)
    obtain ⟨ts, same, known⟩ := akin.nextLine trivial
    have words : List.Forall₂ (SameWord (fun _ => 0) (fun _ => 0)) (last.nextLine []).tokens
        (last'.nextLine []).tokens := by
      rw [same, List.append_nil]
      exact known.imp fun _ _ token => ⟨token.1, fun _ => rfl⟩
    have columns : last.indents.length = last'.indents.length := by
      rw [akin.indents, List.length_map]
    have lexed' : tokenize source' .script = .ok (finish last' true) := by
      unfold tokenize
      rw [read']
      rfl
    rw [Program.compile_of_tokenize lexed']
    exact Program.ofTokens_finish read words columns compiled _

/-- A conditional with a comment in front, joined lines, a line end within brackets and a tab. -/
theorem conditional_is_relaid :
    ∃ program program', Program.compile "if (x, y):\n z\n" .script = .ok program ∧
      Program.compile "# all\nif\\\n(x,# both\ny):\n\tz\n" .script = .ok program' ∧
      program'.future = program.future ∧
      SameBody (fun _ => 0) (fun _ => 0) program.body program'.body := by
  have mono : StrictMono (8 * ·) := fun m n less => by
    show 8 * m < 8 * n
    omega
  have relaid : Relaid (8 * ·) (.ofString "if (x, y):\n z\n")
      "# all\nif\\\n(x,# both\ny):\n\tz\n".toList := by
    refine .inserted [] "# all".toList rfl (by simp [Spaces]) (.comment (by decide)) ?_
    refine .indented [] [] rfl (by simp [Spaces]) (by simp [Spaces]) rfl rfl (by decide) (by decide)
      rfl rfl ?_
    refine .token ['f'] rfl rfl rfl rfl ?_
    refine .gap [' '] ['\\', '\n'] rfl (.space rfl .nil) (.joint .nil) (by simp) (by simp) rfl ?_
    refine .token [] rfl rfl rfl rfl (.token [] rfl rfl rfl rfl (.token [] rfl rfl rfl rfl ?_))
    refine .gap [' '] "# both\n".toList rfl (.space rfl .nil)
      (.lineEnd rfl (.comment (by decide : '\n' ∉ " both".toList)) .nil) (by simp) (by simp) rfl ?_
    refine .token [] rfl rfl rfl rfl (.token [] rfl rfl rfl rfl (.token [] rfl rfl rfl rfl ?_))
    refine .ended [] [] rfl rfl .none .none rfl ?_
    refine .indented [' '] ['\t'] rfl (by simp [Spaces, isSpace]) (by simp [Spaces, isSpace]) rfl rfl
      (by decide) (by decide) rfl rfl ?_
    refine .token [] rfl rfl rfl rfl (.ended [] [] rfl rfl .none .none rfl ?_)
    exact .done [] [] [] [] rfl (by simp [Spaces]) .none (by simp [Spaces]) .none rfl
  have compiles : (Program.compile "if (x, y):\n z\n" .script).toBool = true := by decide +kernel
  cases compiled : Program.compile "if (x, y):\n z\n" .script with
  | error error =>
    rw [compiled] at compiles
    cases compiles
  | ok program =>
    obtain ⟨program', compiled', future, same⟩ :=
      (layout_is_inert _ program compiled).2 _ _ mono rfl relaid
    exact ⟨program, program', rfl, compiled', future, same⟩

end Console
