/-
`meissnerseal list`: the rows it prints.

# Rows

A row is an item's id, its label and its kind, with tabs between them. The
label is shown escaped, so no label adds a row, a field or a control
character, and two listings that look the same are of the same items
(`renderItemSummaries_faithful`).
-/
import MeissnerSeal.Cli.ItemId
import MeissnerSeal.Item.Payload
import MeissnerSeal.Lib.EscapedText

namespace MeissnerSeal

open ByteCodec ExceptRules TextLines EscapedText

-- =================================================================== kinds

/-- `parse_item_kind`. -/
def parseItemKind (kind : String) : Res ItemKind :=
  match kind with
  | "password" => .ok .password
  | "seed-phrase" => .ok .seedPhrase
  | "ssh-key" => .ok .sshPrivateKey
  | "api-token" => .ok .apiToken
  | "secure-note" => .ok .secureNote
  | other => .error (.invalidState ("unknown item kind: " ++ other
      ++ " (expected password|seed-phrase|ssh-key|api-token|secure-note)"))

/-- `item_kind_name`. -/
def itemKindName : ItemKind → String
  | .password => "Password"
  | .seedPhrase => "SeedPhrase"
  | .sshPrivateKey => "SshPrivateKey"
  | .apiToken => "ApiToken"
  | .secureNote => "SecureNote"

theorem itemKindName_injective : Function.Injective itemKindName := by
  intro kind kind' h
  cases kind <;> cases kind' <;> first | rfl | exact absurd h (by decide)

theorem printable_of_mem_itemKindName {kind : ItemKind} :
    ∀ c ∈ (itemKindName kind).toList, Printable c := by
  intro c hc
  apply printable_of_all _ hc
  cases kind <;> decide

-- ==================================================================== rows

/-- One row of the listing. -/
def ItemSummary.row (summary : ItemSummary) : String :=
  hexId summary.id ++ "\t" ++ escapeText summary.label ++ "\t" ++ itemKindName summary.kind

/-- `render_item_summaries`. -/
def renderItemSummaries : List ItemSummary → String
  | [] => ""
  | summary :: summaries => summary.row ++ "\n" ++ renderItemSummaries summaries

/-- What a row shows of an item. -/
def ItemSummary.shown (summary : ItemSummary) : ItemId × String × ItemKind :=
  (summary.id, summary.label, summary.kind)

theorem printable_hexDigit : ∀ n < 16, Printable (hexDigit n) := by decide

theorem printable_of_mem_hexBytes {bytes : Bytes} {c : Char} (h : c ∈ (hexBytes bytes).toList) :
    Printable c := by
  rw [hexBytes, String.toList_ofList, List.mem_flatMap] at h
  obtain ⟨b, -, hc⟩ := h
  have hb := b.toNat_lt
  rw [hexByte, List.mem_cons, List.mem_singleton] at hc
  obtain rfl | rfl := hc
  · exact printable_hexDigit _ (by omega)
  · exact printable_hexDigit _ (by omega)

/-- The characters of a row are printable, or its two tabs. -/
theorem printable_of_mem_row {summary : ItemSummary} {c : Char} (h : c ∈ summary.row.toList) :
    Printable c ∨ c = '\t' := by
  simp only [ItemSummary.row, String.toList_append, List.mem_append] at h
  obtain (((hid | htab) | hlabel) | htab) | hkind := h
  · exact .inl (printable_of_mem_hexBytes hid)
  · exact .inr (List.mem_singleton.mp htab)
  · exact .inl (printable_of_mem_escapeText hlabel)
  · exact .inr (List.mem_singleton.mp htab)
  · exact .inl (printable_of_mem_itemKindName c hkind)

theorem not_printable_tab : ¬ Printable '\t' := by decide

/-- What stands between the tabs of a line. -/
def tabFields (row : String) : List String := (row.toList.splitOn '\t').map String.ofList

/-- There are three of them, and no more. -/
theorem tabFields_row (summary : ItemSummary) :
    tabFields summary.row
      = [hexId summary.id, escapeText summary.label, itemKindName summary.kind] := by
  have hapart : ∀ field ∈ [(hexId summary.id).toList, (escapeText summary.label).toList,
      (itemKindName summary.kind).toList], '\t' ∉ field := by
    intro field hfield htab
    simp only [List.mem_cons, List.not_mem_nil, or_false] at hfield
    obtain rfl | rfl | rfl := hfield
    · exact not_printable_tab (printable_of_mem_hexBytes htab)
    · exact not_printable_tab (printable_of_mem_escapeText htab)
    · exact not_printable_tab (printable_of_mem_itemKindName _ htab)
  have hrow : summary.row.toList = ['\t'].intercalate [(hexId summary.id).toList,
      (escapeText summary.label).toList, (itemKindName summary.kind).toList] := by
    simp [ItemSummary.row, List.intercalate]
  rw [tabFields, hrow, List.splitOn_intercalate _ hapart (List.cons_ne_nil _ _)]
  simp only [List.map_cons, List.map_nil, String.ofList_toList]

/-- A row is of one item, as far as it shows it. -/
theorem shown_of_row_eq {summary summary' : ItemSummary} (h : summary.row = summary'.row) :
    summary.shown = summary'.shown := by
  have hfields := tabFields_row summary
  rw [h, tabFields_row summary'] at hfields
  simp only [List.cons.injEq, and_true] at hfields
  obtain ⟨hidText, hlabelText, hkindText⟩ := hfields
  have hid : summary.id = summary'.id :=
    List.Vector.toList_injective (hexBytes_inj hidText.symm)
  have hlabel : summary.label = summary'.label := escapeText_injective hlabelText.symm
  have hkind : summary.kind = summary'.kind := itemKindName_injective hkindText.symm
  rw [ItemSummary.shown, ItemSummary.shown, hid, hlabel, hkind]

/-- Equal rows are of equal items, one by one. -/
theorem map_shown_of_map_row {summaries summaries' : List ItemSummary}
    (h : summaries.map ItemSummary.row = summaries'.map ItemSummary.row) :
    summaries.map ItemSummary.shown = summaries'.map ItemSummary.shown := by
  induction summaries generalizing summaries' with
  | nil =>
      cases summaries' with
      | nil => rfl
      | cons summary' summaries' => cases h
  | cons summary summaries ih =>
      cases summaries' with
      | nil => cases h
      | cons summary' summaries' =>
          rw [List.map_cons, List.map_cons, List.cons.injEq] at h
          rw [List.map_cons, List.map_cons, shown_of_row_eq h.1, ih h.2]

theorem row_getLast (summary : ItemSummary) : summary.row.toList.getLast? ≠ some '\r' := by
  intro h
  obtain hprintable | htab := printable_of_mem_row (List.mem_of_getLast? h)
  · exact absurd hprintable (by decide)
  · cases htab

/-- A listing has one line for each item. -/
theorem lines_renderItemSummaries (summaries : List ItemSummary) :
    lines (renderItemSummaries summaries) = summaries.map ItemSummary.row := by
  induction summaries with
  | nil => rfl
  | cons summary summaries ih =>
      have hnewline : '\n' ∉ summary.row.toList := by
        intro h
        obtain hprintable | htab := printable_of_mem_row h
        · exact absurd hprintable (by decide)
        · cases htab
      rw [renderItemSummaries, lines_append_newline, ih, lines_line hnewline,
        stripCr_eq_self.mpr (row_getLast summary), String.ofList_toList]
      rfl

/-- What `list` prints is what the vault holds, whatever the labels: nothing
but printable characters, tabs and ends of lines; one line for each item;
three fields to a line, its id, its label as escaped and its kind; and no
listing is that of other items. -/
theorem renderItemSummaries_faithful :
    (∀ summaries, ∀ c ∈ (renderItemSummaries summaries).toList,
        Printable c ∨ c = '\t' ∨ c = '\n')
      ∧ (∀ summaries, lines (renderItemSummaries summaries) = summaries.map ItemSummary.row)
      ∧ (∀ summary : ItemSummary, tabFields summary.row
        = [hexId summary.id, escapeText summary.label, itemKindName summary.kind])
      ∧ ∀ summaries summaries', renderItemSummaries summaries = renderItemSummaries summaries' →
          summaries.map ItemSummary.shown = summaries'.map ItemSummary.shown := by
  refine ⟨?_, lines_renderItemSummaries, tabFields_row, ?_⟩
  · intro summaries
    induction summaries with
    | nil => intro c hc; cases hc
    | cons summary summaries ih =>
        intro c hc
        simp only [renderItemSummaries, String.toList_append, List.mem_append] at hc
        obtain (hrow | hnewline) | hrest := hc
        · obtain hprintable | htab := printable_of_mem_row hrow
          · exact .inl hprintable
          · exact .inr (.inl htab)
        · exact .inr (.inr (List.mem_singleton.mp hnewline))
        · exact ih c hrest
  · intro summaries summaries' h
    have hrows := congrArg lines h
    rw [lines_renderItemSummaries, lines_renderItemSummaries] at hrows
    exact map_shown_of_map_row hrows

end MeissnerSeal
