/-
# Rendered tokens

Terminals written one after the other, with a blank between two of them, are scanned as these
terminals, whichever of their texts are chosen (`Terminal.scan_join`). So every list of terminals
is the list of tokens of some text.
-/
import DirectC.Proofs.Tiling
import Mathlib.Data.List.Forall2

namespace DirectC

/-- A blank in front of a tiling. -/
theorem Tiles.blank {pos : Nat} {text : Bytes} {ts : List Token} (h : Tiles (pos + 1) text ts) :
    Tiles pos (32 :: text) ts := by
  have hblank : Scan.isBlank 32 := rfl
  cases h with
  | done hgap hkind hliteral hpos =>
    exact .done (.blank hblank hgap) hkind hliteral (by rw [hpos, List.length_cons]; omega)
  | cons hgap hw hend hkind hliteral hpos hts =>
    rw [← List.cons_append]
    exact .cons (.blank hblank hgap) hw hend hkind hliteral
      (by rw [hpos, List.length_cons]; omega) hts

namespace Terminal

/-- A terminal in front of a tiling. -/
theorem Written.tiles {w : Terminal} {text rest : Bytes} {pos : Nat} {ts : List Token}
    (h : w.Written text) (hend : w.EndsBefore rest) (hts : Tiles (pos + text.length) rest ts) :
    Tiles pos (text ++ rest) (⟨w.kind, w.literal, pos, 0, 0⟩ :: ts) :=
  .cons .nil h hend rfl rfl rfl hts

/-- Texts of terminals with blanks between them are tiled by these terminals. -/
theorem tiles_join {ws : List Terminal} {texts : List Bytes} (h : List.Forall₂ Written ws texts)
    (pos : Nat) :
    ∃ ts, Tiles pos (List.intercalate [32] texts) ts ∧
      ts.map (fun t => (t.kind, t.literal)) =
        ws.map (fun w => (w.kind, w.literal)) ++ [(.endOfFile, [])] := by
  induction h generalizing pos with
  | nil => exact ⟨[⟨.endOfFile, [], pos, 0, 0⟩], .done .nil rfl rfl rfl, rfl⟩
  | @cons w text ws texts hw htail ih =>
    cases htail with
    | nil =>
      obtain ⟨ts, htiles, hts⟩ := ih (pos + text.length)
      refine ⟨⟨w.kind, w.literal, pos, 0, 0⟩ :: ts, ?_, by rw [List.map_cons, hts]; rfl⟩
      rw [List.intercalate_singleton, ← List.append_nil text]
      exact hw.tiles (endsBefore_of_blank (by simp) w) htiles
    | cons =>
      obtain ⟨ts, htiles, hts⟩ := ih (pos + text.length + 1)
      refine ⟨⟨w.kind, w.literal, pos, 0, 0⟩ :: ts, ?_, by rw [List.map_cons, hts]; rfl⟩
      rw [List.intercalate_cons_cons, List.append_assoc, List.singleton_append]
      exact hw.tiles (endsBefore_of_blank (by simp) w) htiles.blank

/-- **Terminals with blanks between them are scanned as themselves.** Every terminal has a text,
and whichever texts are taken, the tokens have the kinds and the literals of the terminals, and the
end of file follows. -/
theorem scan_join (ws : List Terminal) :
    (∃ texts, List.Forall₂ Written ws texts) ∧
      ∀ texts, List.Forall₂ Written ws texts →
        (Token.scan (List.intercalate [32] texts)).map (fun t => (t.kind, t.literal)) =
          ws.map (fun w => (w.kind, w.literal)) ++ [(.endOfFile, [])] := by
  constructor
  · induction ws with
    | nil => exact ⟨[], .nil⟩
    | cons w ws ih =>
      obtain ⟨texts, ih⟩ := ih
      obtain ⟨text, hw⟩ := w.exists_written
      exact ⟨text :: texts, .cons hw ih⟩
  · intro texts h
    obtain ⟨ts, htiles, hts⟩ := tiles_join h 0
    have hscan := congrArg (List.map fun t : Token => (t.kind, t.literal)) htiles.scan
    rw [List.map_map, List.map_map] at hscan
    rw [← hts]
    exact hscan

/-- A keyword and a name that starts with it, two divisions, a quote as a character, and a string
of a quote, a backslash, a newline and a byte that is no text. -/
theorem scan_join_escapes :
    (Token.scan (List.intercalate [32] ["int", "int_", "/", "/", "'\\''",
        [34, 92, 34, 92, 92, 92, 110, 255, 34]])).map (fun t => (t.kind, t.literal)) =
      ([(.keyword .int, "int"), (.identifier, "int_"), (.punct .slash, "/"), (.punct .slash, "/"),
        (.character, "'"), (.string, [34, 92, 10, 255]), (.endOfFile, [])] :
          List (Token.Kind × Bytes)) := by
  have hname : Scan.IsName "int_" := ⟨⟨105, by decide, by decide⟩, by decide, by decide⟩
  have htick : Scan.Denotes 39 [92, 39] [39] := .escaped rfl .nil
  have hbytes : Scan.Denotes 34 [92, 34, 92, 92, 92, 110, 255] [34, 92, 10, 255] :=
    .escaped rfl (.escaped rfl (.escaped rfl (.raw (by decide) (by decide) (by decide) .nil)))
  exact (scan_join [.keyword .int, .name "int_" hname, .punct .slash, .punct .slash,
    .character 39, .string [34, 92, 10, 255]]).2 _ (.cons (.keyword _) (.cons (.name hname)
      (.cons (.punct _) (.cons (.punct _) (.cons (.character htick) (.cons (.string hbytes) .nil))))))

end Terminal

end DirectC
