import HeaderAtlas.Proofs.Layout.Reading

/-!
# Scanning does not depend on layout

What a header declares is told by its tokens: neither the blanks, comments and directives between them nor the places where they
stand reach the catalog, but for the default texts, which are cut out of the source as they are written (`scan_spacedText`).
-/

namespace HeaderAtlas

theorem spacedText_spacedText (s : String) : spacedText (spacedText s) = spacedText s := by
  rw [spacedText, spacedText, String.toList_ofList, spaced_spaced]

/-- A scan of the spaced text over a plain catalog leaves the plain form of the catalog that the scan of the text leaves. -/
theorem catalog_scan_spacedText {r r' : Recorder} (h : r'.catalog = r.catalog.plain) (options : ScanOptions) (s : String) :
    (r'.scan options (spacedText s)).catalog = (r.scan options s).catalog.plain := by
  obtain ⟨ρ, hcursor, hfaithful⟩ := exists_relabeling s
  have hstart : Reader.Alike ρ { r with cursor := Cursor.ofText s } { r' with cursor := Cursor.ofText (spacedText s) } :=
    ⟨h, hcursor.symm⟩
  exact (hstart.takeHeader hfaithful options).catalog

/-- Scanning a text and scanning the spans of its tokens with one blank between each two give the same catalog, whatever the
catalog was before: the same records under the same handles, with the same names, values, modifiers, traits and array lengths. Only
the default texts of properties and methods may differ, and these have the same spans of tokens too. -/
theorem scan_spacedText (r : Recorder) (options : ScanOptions) (s : String) :
    (r.scan options (spacedText s)).catalog.plain = (r.scan options s).catalog.plain := by
  -- Both sides are what the scan of the spaced text leaves when it starts from the plain catalog.
  let plain : Recorder := { r with catalog := r.catalog.plain }
  calc (r.scan options (spacedText s)).catalog.plain
    _ = (plain.scan options (spacedText (spacedText s))).catalog := (catalog_scan_spacedText rfl options (spacedText s)).symm
    _ = (plain.scan options (spacedText s)).catalog := by rw [spacedText_spacedText]
    _ = (r.scan options s).catalog.plain := catalog_scan_spacedText rfl options s

end HeaderAtlas
