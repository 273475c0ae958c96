import DoxygenMarkdown.Documentation.Markdown
import DoxygenMarkdown.Proofs.Text.Lines

/-!
# Lines inside and outside fences

Whoever goes over lines with fences in them is inside a block of code or outside of all blocks, and
each line leaves things as they are or opens or closes a block (`LineKinds.Step`). Which lines do
what is left open, because fences are asked for in different ways: by a line that begins with one,
or by how many a line holds.

Lines are *fenced* (`Fenced`) if one comes out of them as one went in, outside of all blocks. They
are *unclosed* (`Unclosed`) if one is inside of a block below them.
-/

namespace DoxygenMarkdown

/-- The lines that are text, and those that make up a block of code. -/
structure LineKinds where
  text : Text → Prop
  opening : Text → Prop
  code : Text → Prop
  closing : Text → Prop

namespace LineKinds

/-- From inside or outside of a block of code to below a line. -/
inductive Step (k : LineKinds) : (inCode : Bool) → Text → (inCodeBelow : Bool) → Prop
  | text {l : Text} (h : k.text l) : Step k false l false
  | opening {l : Text} (h : k.opening l) : Step k false l true
  | code {l : Text} (h : k.code l) : Step k true l true
  | closing {l : Text} (h : k.closing l) : Step k true l false

/-- From inside or outside of a block of code to below some lines. -/
inductive Run (k : LineKinds) : (inCode : Bool) → List Text → (inCodeBelow : Bool) → Prop
  | nil (b : Bool) : Run k b [] b
  | cons {a b c : Bool} {l : Text} {ls : List Text} (h : k.Step a l b) (hs : Run k b ls c) :
    Run k a (l :: ls) c

/-- A line becomes another one that is as much text, or a part of a block, as it was. -/
theorem Step.imp {k k' : LineKinds} {a b : Bool} {l m : Text} (h : k.Step a l b)
    (htext : k.text l → k'.text m) (hopening : k.opening l → k'.opening m)
    (hcode : k.code l → k'.code m) (hclosing : k.closing l → k'.closing m) : k'.Step a m b := by
  cases h with
  | text h => exact .text (htext h)
  | opening h => exact .opening (hopening h)
  | code h => exact .code (hcode h)
  | closing h => exact .closing (hclosing h)

end LineKinds

/-- Blocks of code that are closed, with text around them. -/
abbrev Fenced (k : LineKinds) (ls : List Text) : Prop := k.Run false ls false

/-- The same, and a block of code below that is still open. -/
abbrev Unclosed (k : LineKinds) (ls : List Text) : Prop := k.Run false ls true

namespace LineKinds.Run

variable {k k' : LineKinds} {a b c : Bool} {l : Text} {ls ms : List Text}

theorem singleton (h : k.Step a l b) : k.Run a [l] b := .cons h (.nil b)

theorem append (h : k.Run a ls b) (h' : k.Run b ms c) : k.Run a (ls ++ ms) c := by
  induction h with
  | nil => exact h'
  | cons hl _ ih => exact .cons hl (ih h')

theorem concat (h : k.Run a ls b) (hl : k.Step b l c) : k.Run a (ls ++ [l]) c :=
  h.append (singleton hl)

/-- A run over a first line and more begins with a step over the first line. -/
theorem cons_inv (h : k.Run a (l :: ls) c) : ∃ b, k.Step a l b ∧ k.Run b ls c := by
  cases h with
  | cons hl hs => exact ⟨_, hl, hs⟩

/-- A run over lines and more lines is a run over each, with some state between them. -/
theorem append_inv (h : k.Run a (ls ++ ms) c) : ∃ b, k.Run a ls b ∧ k.Run b ms c := by
  induction ls generalizing a with
  | nil => exact ⟨a, .nil a, h⟩
  | cons l ls ih =>
    obtain ⟨b, hl, hs⟩ := cons_inv h
    obtain ⟨b', hls, hms⟩ := ih hs
    exact ⟨b', .cons hl hls, hms⟩

theorem concat_inv (h : k.Run a (ls ++ [l]) c) : ∃ b, k.Run a ls b ∧ k.Step b l c := by
  obtain ⟨b, hls, hl⟩ := h.append_inv
  obtain ⟨c', hstep, hnil⟩ := hl.cons_inv
  cases hnil
  exact ⟨b, hls, hstep⟩

/-- Lines of text alone open nothing. -/
theorem of_forall_text (h : ∀ l ∈ ls, k.text l) : Fenced k ls := by
  induction ls with
  | nil => exact .nil false
  | cons l ls ih =>
    exact .cons (.text (h l List.mem_cons_self)) (ih fun m hm => h m (List.mem_cons_of_mem _ hm))

/-- Lines of code alone close nothing. -/
theorem of_forall_code (h : ∀ l ∈ ls, k.code l) : k.Run true ls true := by
  induction ls with
  | nil => exact .nil true
  | cons l ls ih =>
    exact .cons (.code (h l List.mem_cons_self)) (ih fun m hm => h m (List.mem_cons_of_mem _ hm))

/-- Lines that are changed one by one are gone over in the same way, if each of them is. -/
theorem map {f : Text → Text} (hf : ∀ a l b, k.Step a l b → k'.Step a (f l) b)
    (h : k.Run a ls b) : k'.Run a (ls.map f) b := by
  induction h with
  | nil b => exact .nil b
  | cons hl _ ih => exact .cons (hf _ _ _ hl) ih

end LineKinds.Run

end DoxygenMarkdown
