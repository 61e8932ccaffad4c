import GreenTurtle.Execution
import Mathlib.Tactic

/-!
# Streams of frames

Frames are words of a language in which no word begins another one.  A stream
of frames arrives in pieces, and what has arrived always consists of whole
frames and an unfinished one.  A receiver that hands on the whole frames of
each piece and keeps the rest hands on the frames of the stream, however it was
cut.
-/

namespace GreenTurtle.Framing

open Execution

variable {α : Type} (IsFrame : List α → Prop)

def PrefixFree : Prop :=
  ∀ f g, IsFrame f → IsFrame g → f <+: g → f = g

/-- A beginning of a frame that is not the whole frame. -/
def Unfinished (part : List α) : Prop :=
  ∃ f, IsFrame f ∧ part <+: f ∧ part ≠ f

variable {IsFrame}

theorem Unfinished.of_isPrefix
    {front part : List α} (hpart : Unfinished IsFrame part)
    (hfront : front <+: part) :
    Unfinished IsFrame front := by
  obtain ⟨f, hframe, hbegins, hproper⟩ := hpart
  refine ⟨f, hframe, hfront.trans hbegins, ?_⟩
  intro hwhole
  rw [hwhole] at hfront
  exact hproper (hbegins.eq_of_length_le hfront.length_le)

theorem Unfinished.not_frame_append
    (hfree : PrefixFree IsFrame) {f rest : List α} (hframe : IsFrame f) :
    ¬ Unfinished IsFrame (f ++ rest) := by
  rintro ⟨g, hother, hbegins, hproper⟩
  have hsame : f = g :=
    hfree f g hframe hother ((List.prefix_append f rest).trans hbegins)
  subst hsame
  exact hproper (hbegins.eq_of_length_le (by simp))

theorem Unfinished.eq_nil_of_flatten
    (hfree : PrefixFree IsFrame) {frames : List (List α)} {tail : List α}
    (hframes : ∀ f ∈ frames, IsFrame f)
    (hpart : Unfinished IsFrame (frames.flatten ++ tail)) :
    frames = [] := by
  cases frames with
  | nil => rfl
  | cons f frames =>
      rw [List.flatten_cons, List.append_assoc] at hpart
      exact absurd hpart
        (Unfinished.not_frame_append hfree (hframes f List.mem_cons_self))

/-- Whatever has been seen of a stream is a number of its frames and an
unfinished part, and the rest of the stream continues that part. -/
theorem exists_cut
    {frames : List (List α)} {tail seen rest : List α}
    (hframes : ∀ f ∈ frames, IsFrame f)
    (htail : Unfinished IsFrame tail)
    (hstream : seen ++ rest = frames.flatten ++ tail) :
    ∃ whole later part,
      frames = whole ++ later ∧ seen = whole.flatten ++ part ∧
        Unfinished IsFrame part ∧ part ++ rest = later.flatten ++ tail := by
  induction frames generalizing seen with
  | nil =>
      have hseen : seen <+: tail := ⟨rest, hstream⟩
      exact ⟨[], [], seen, rfl, rfl, htail.of_isPrefix hseen, hstream⟩
  | cons f frames ih =>
      have hframe := hframes f List.mem_cons_self
      have hothers : ∀ g ∈ frames, IsFrame g := fun g hg =>
        hframes g (List.mem_cons_of_mem f hg)
      rw [List.flatten_cons, List.append_assoc] at hstream
      by_cases hpart : seen <+: f ∧ seen ≠ f
      · refine ⟨[], f :: frames, seen, rfl, rfl,
          ⟨f, hframe, hpart.1, hpart.2⟩, ?_⟩
        rw [hstream, List.flatten_cons, List.append_assoc]
      · have hwhole : f <+: seen := by
          have hcompare := List.prefix_or_prefix_of_prefix
            (List.prefix_append seen rest)
            (hstream ▸ List.prefix_append f (frames.flatten ++ tail))
          cases hcompare with
          | inl hseen =>
              have hsame : seen = f := by
                by_contra hne
                exact hpart ⟨hseen, hne⟩
              exact hsame ▸ List.prefix_refl seen
          | inr hframe => exact hframe
        obtain ⟨more, rfl⟩ := hwhole
        rw [List.append_assoc] at hstream
        obtain ⟨whole, later, part, hsplit, hmore, hunfinished, hrest⟩ :=
          ih hothers (List.append_cancel_left hstream)
        refine ⟨f :: whole, later, part, ?_, ?_, hunfinished, hrest⟩
        · rw [hsplit, List.cons_append]
        · rw [hmore, List.flatten_cons, List.append_assoc]

/-! ## Receivers -/

/-- A receiver that turns what it kept and a new piece into whole frames and
the part it keeps now, whenever the bytes are of that form, hands on the frames
of the stream. -/
theorem run_delivers
    {σ ε β : Type} (step : σ → ε → Option σ) (payload : ε → List α)
    (kept : σ → List α) (handed : σ → List β) (hand : List α → β)
    (inv : σ → Prop) (admissible : σ → ε → Prop)
    (hfree : PrefixFree IsFrame)
    (hstep :
      ∀ state piece (whole : List (List α)) part,
        inv state → admissible state piece →
        Unfinished IsFrame (kept state) →
        (∀ f ∈ whole, IsFrame f) → Unfinished IsFrame part →
          kept state ++ payload piece = whole.flatten ++ part →
            ∃ next, step state piece = some next ∧ inv next ∧
              handed next = handed state ++ whole.map hand ∧
                kept next = part)
    {frames : List (List α)} {tail : List α} {state : σ}
    {pieces : List ε} (hinv : inv state)
    (hkept : Unfinished IsFrame (kept state))
    (hframes : ∀ f ∈ frames, IsFrame f)
    (htail : Unfinished IsFrame tail)
    (hadmissible : EachStep step admissible state pieces)
    (hstream :
      kept state ++ pieces.flatMap payload = frames.flatten ++ tail) :
    ∃ final, run step state pieces = some final ∧ inv final ∧
      handed final = handed state ++ frames.map hand ∧
        kept final = tail := by
  induction pieces generalizing state frames with
  | nil =>
      rw [List.flatMap_nil, List.append_nil] at hstream
      have hnone : frames = [] :=
        Unfinished.eq_nil_of_flatten hfree hframes (hstream ▸ hkept)
      subst hnone
      exact ⟨state, rfl, hinv, by simp, hstream⟩
  | cons piece pieces ih =>
      rw [List.flatMap_cons, ← List.append_assoc] at hstream
      obtain ⟨whole, later, part, rfl, hseen, hpart, hrest⟩ :=
        exists_cut hframes htail hstream
      have hwhole : ∀ f ∈ whole, IsFrame f := fun f hf =>
        hframes f (List.mem_append_left later hf)
      have hlater : ∀ f ∈ later, IsFrame f := fun f hf =>
        hframes f (List.mem_append_right whole hf)
      obtain ⟨next, hnext, hnextInv, hhanded, hkeptNext⟩ :=
        hstep state piece whole part hinv hadmissible.1 hkept hwhole hpart
          hseen
      simp only [EachStep, hnext] at hadmissible
      subst hkeptNext
      obtain ⟨final, hrun, hfinal, hall, hleft⟩ :=
        ih hnextInv hpart hlater hadmissible.2 hrest
      refine ⟨final, ?_, hfinal, ?_, hleft⟩
      · simp only [run, hnext, hrun]
      · rw [hall, hhanded, List.append_assoc, List.map_append]

end GreenTurtle.Framing
