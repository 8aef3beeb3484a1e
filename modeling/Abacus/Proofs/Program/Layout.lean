import Abacus.Proofs.Program.Contents
import Abacus.Proofs.Token.Insertions

/-!
# Programs and the layout of their sources

Which program a source is depends on the kinds and texts of its tokens only
(`Program.ofSource_congr`), and so on its layout only as far as newlines are tokens
(`Program.layout_insensitive`).
-/

namespace Abacus

open Token (contents depthBehind)

/-- Tokens of the same kinds and texts are read as the same program. -/
theorem Program.ofSource_congr {source source' : String} {ts ts' : List Token} {p : Program}
    (h : Lexicon.standard.tokens source = .ok ts) (h' : Lexicon.standard.tokens source' = .ok ts')
    (hcontents : contents ts' = contents ts) (hp : Program.ofSource source = .ok p) :
    Program.ofSource source' = .ok p := by
  obtain ⟨body, hts, -, hbody⟩ := Program.spells_of_ofSource hp
  rw [h] at hts
  cases hts
  obtain ⟨body', rfl, -⟩ := Lexicon.tokens_ok h'
  obtain ⟨bodyEnd, ends, happend, hbody', hends⟩ := Token.append_of_contents hcontents
  obtain ⟨pos, rfl⟩ := Token.single_of_contents hends
  obtain ⟨rfl, -⟩ := List.append_inj' happend rfl
  have hp' := hbody.of_contents hbody'
  exact Program.ofSource_ok_iff.mpr ⟨_, h', (Program.ofTokens_iff hp'.noEnd rfl).mpr hp'⟩

/-- Layout put into a source where no token is cut in two. Blanks change nothing, and neither does a
comment in front of the end of a line. A newline outside of the comments is one more token where no
parenthesis is open, and changes nothing in parentheses. And only the kinds and texts of the tokens
tell which program a source is, if it is one. -/
theorem Program.layout_insensitive :
    (∀ (front rest : String) (ts : List Token), Lexicon.standard.tokens (front ++ rest) = .ok ts →
      Lexicon.NoneAcross front.length ts →
      ∃ before behind, Lexicon.DividesAt front.length ts before behind ∧
        (∀ blanks : String, (∀ c ∈ blanks.toList, Lexicon.isBlank c) →
          Lexicon.standard.Reads (front ++ blanks ++ rest) (contents ts)) ∧
        (¬ Lexicon.InsideComment front.toList rest.toList →
          (0 < depthBehind 0 before →
            Lexicon.standard.Reads (front ++ "\n" ++ rest) (contents ts)) ∧
          (depthBehind 0 before = 0 →
            Lexicon.standard.Reads (front ++ "\n" ++ rest)
              (contents before ++ (.newline, "\n") :: contents behind))) ∧
        (Lexicon.LineEnds rest.toList → ∀ comment : String, '\n' ∉ comment.toList →
          Lexicon.standard.Reads (front ++ ("#" ++ comment) ++ rest) (contents ts))) ∧
    ∀ (source source' : String) (ts ts' : List Token),
      Lexicon.standard.tokens source = .ok ts → Lexicon.standard.tokens source' = .ok ts' →
      contents ts = contents ts' →
      ∀ p, Program.ofSource source = .ok p ↔ Program.ofSource source' = .ok p := by
  constructor
  · intro front rest ts h hplace
    obtain ⟨behind, before, after, hopens, hrest, hdivides⟩ :=
      Lexicon.splitsAt_of_tokens Lexicon.layoutFree_standard h hplace
    have hts : contents ts = contents (Lexicon.dropLayout 0 before) ++
        contents (Lexicon.dropLayout (depthBehind 0 before) after) ++ [(.endOfText, "")] := by
      rw [hdivides.eq_append]
      unfold contents
      rw [List.map_append, List.map_append, List.append_assoc]
      rfl
    -- The three insertions share one division of the tokens at the seam.
    refine ⟨_, _, hdivides, fun blanks hblanks => ?_, fun houtside => ?_,
      fun hends comment hc => ?_⟩
    · -- Inserting no blanks at all is the one insertion that leaves the source as it was.
      by_cases hne : blanks = ""
      · subst hne
        rw [String.append_empty]
        exact ⟨ts, h, rfl⟩
      · rw [hts]
        exact hopens.reads_blanks hrest hne hblanks
    · have hnewline := hopens.reads_newline hrest houtside
      -- Whether a newline at the seam is kept depends on the depth there, which the dropped layout
      -- does not change.
      rw [Lexicon.depthBehind_dropLayout]
      constructor
      · intro hdepth
        rw [if_neg (Nat.ne_of_gt hdepth), List.nil_append] at hnewline
        rwa [hts]
      · intro hdepth
        rw [if_pos hdepth, List.append_assoc, List.append_assoc] at hnewline
        unfold contents at hnewline ⊢
        rw [List.map_append]
        exact hnewline
    · rw [hts]
      exact hopens.reads_comment hrest hends hc
  · intro source source' ts ts' h h' hcontents p
    exact ⟨Program.ofSource_congr h h' hcontents.symm, Program.ofSource_congr h' h hcontents⟩

/-- Behind the comma a parenthesis is open, and behind the semicolon none is. -/
theorem Program.layout_insensitive_call :
    let ts : List Token := [⟨.identifier, "f", 0⟩, ⟨.delimiter, "(", 1⟩, ⟨.identifier, "a", 2⟩,
      ⟨.delimiter, ",", 3⟩, ⟨.number, "1", 5⟩, ⟨.delimiter, ")", 6⟩, ⟨.delimiter, ";", 7⟩,
      ⟨.identifier, "b", 9⟩, Token.endAt 10]
    Lexicon.standard.tokens "f(a,\n1); b" = .ok ts ∧
      Lexicon.standard.Reads "f(a, \t\r\n1); b" (contents ts) ∧
      Lexicon.standard.Reads "f(a,\n\n1); b" (contents ts) ∧
      Lexicon.standard.Reads "f(a,# (1\n1); b" (contents ts) ∧
      Lexicon.standard.Reads "f(a,\n1);\n b"
        (contents (ts.take 7) ++ (.newline, "\n") :: contents (ts.drop 7)) ∧
      ∀ p, Program.ofSource "f(a,\n1); b" = .ok p ↔ Program.ofSource "f(a,# (1\n1); b" = .ok p := by
  intro ts
  have hts : Lexicon.standard.tokens "f(a,\n1); b" = .ok ts := by decide +kernel
  have hts' : Lexicon.standard.tokens ("f(a,\n1);" ++ " b") = .ok ts := by decide +kernel
  obtain ⟨before, behind, hdivides, hblanks, hnewline, hcomment⟩ :=
    Program.layout_insensitive.1 "f(a," "\n1); b" ts hts (by unfold Lexicon.NoneAcross; decide)
  obtain ⟨before', behind', hdivides', -, hnewline', -⟩ :=
    Program.layout_insensitive.1 "f(a,\n1);" " b" ts hts' (by unfold Lexicon.NoneAcross; decide)
  have hends : Lexicon.LineEnds "\n1); b".toList := fun c hc => (Option.some.inj hc).symm
  have hblank : ∀ c ∈ " \t\r".toList, Lexicon.isBlank c :=
    List.all_iff_forall_prop.mp (by decide)
  -- No comment is open at the seam, as the text has no comment sign at all.
  have houtside : ¬ Lexicon.EndsInComment "f(a,\n1);".toList := by
    rintro ⟨front, line, hfront, -⟩
    have hmem : '#' ∈ "f(a,\n1);".toList := by
      rw [hfront]
      exact List.mem_append_right _ List.mem_cons_self
    exact absurd hmem (by decide)
  have hdepth : 0 < depthBehind 0 before := by
    rw [hdivides.before_eq]
    decide +kernel
  have hbefore' : before' = ts.take 7 := hdivides'.before_eq.trans (by decide +kernel)
  have hbehind' : behind' = ts.drop 7 := by
    have happend : ts.take 7 ++ ts.drop 7 = before' ++ behind' := by
      rw [List.take_append_drop]
      exact hdivides'.eq_append
    rw [hbefore'] at happend
    exact (List.append_cancel_left happend).symm
  have hdepth' : depthBehind 0 before' = 0 := by
    rw [hbefore']
    decide +kernel
  have hreads := (hnewline' fun hin => houtside hin.1).2 hdepth'
  rw [hbefore', hbehind'] at hreads
  obtain ⟨us, hus, heq⟩ := hcomment hends " (1" (by decide)
  exact ⟨hts, hblanks " \t\r" hblank, (hnewline fun hin => hin.2 hends).1 hdepth,
    ⟨us, hus, heq⟩, hreads, Program.layout_insensitive.2 _ _ _ _ hts hus heq.symm⟩

end Abacus
