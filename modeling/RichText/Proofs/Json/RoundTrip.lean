import Mathlib.Data.List.Induction
import Mathlib.Tactic.SplitIfs
import RichText.Json.Reader
import RichText.Proofs.Json.Numeral

/-!
Reading what was printed. The scanner finds the tokens of a value in its printed form, whatever
blanks the layout puts between them, and the reader builds the value from its tokens. So a value
whose strings all have a text is read back from either layout.
-/
namespace RichText.Json

/-- The layout puts nothing but blanks between tokens. -/
structure Layout.Blank (l : Layout) : Prop where
  newline : ∀ depth, ∀ c ∈ l.newline depth, isSpace c
  afterColon : ∀ c ∈ l.afterColon, isSpace c

theorem Layout.blank_compact : compact.Blank := ⟨by simp [compact], by simp [compact]⟩

theorem Layout.blank_pretty : pretty.Blank where
  newline depth c hc := by
    obtain rfl | hc := List.mem_cons.1 hc
    · decide
    · rw [(List.mem_replicate.1 hc).2]
      decide
  afterColon c hc := by
    rw [List.mem_singleton.1 hc]
    decide

namespace Value

mutual
/-- Whether all strings and all keys have a text. -/
def legible : Value → Bool
  | .string s => s.isSome
  | .array vs => allLegible vs
  | .object ms => allMembersLegible ms
  | _ => true
def allLegible : List Value → Bool
  | [] => true
  | v :: vs => legible v && allLegible vs
def allMembersLegible : List (Option String × Value) → Bool
  | [] => true
  | (key, v) :: ms => key.isSome && legible v && allMembersLegible ms
end

mutual
/-- The tokens of a value. -/
def tokens : Value → List Token
  | .string s => [.text s]
  | .array [] => [.openArray, .closeArray]
  | .array (v :: vs) => .openArray :: (tokens v ++ (itemTokens vs ++ [.closeArray]))
  | .object [] => [.openObject, .closeObject]
  | .object ((key, v) :: ms) =>
    .openObject :: .text key :: .colon :: (tokens v ++ (memberTokens ms ++ [.closeObject]))
  | v => [.scalar v]
/-- The tokens of the items after the first one. -/
def itemTokens : List Value → List Token
  | [] => []
  | v :: vs => .comma :: (tokens v ++ itemTokens vs)
/-- The tokens of the members after the first one. -/
def memberTokens : List (Option String × Value) → List Token
  | [] => []
  | (key, v) :: ms => .comma :: .text key :: .colon :: (tokens v ++ memberTokens ms)
end

end Value

namespace Scanner

/-- The scanner has found these tokens, newest first, if the text ends here or goes on with a
character that is not bare. -/
inductive Settled : Scanner → List Token → Prop
  | between (found : List Token) : Settled ⟨.between, found⟩ found
  | bare {seen : List Char} {v : Value} (found : List Token) (h : scalar? seen.reverse = some v) :
    Settled ⟨.bare seen, found⟩ (.scalar v :: found)

theorem Settled.step_eq {s : Scanner} {found : List Token} (h : Settled s found) {c : Char}
    (hc : isBare c = false) : s.step c = begin found c := by
  cases h with
  | between => rfl
  | bare found h => simp [step, hc, h]

theorem Settled.finish_eq {s : Scanner} {found : List Token} (h : Settled s found) :
    s.finish = some found.reverse := by
  cases h with
  | between => rfl
  | bare found h => simp [finish, h]

theorem isBare_of_isSpace {c : Char} (h : isSpace c) : isBare c = false := by
  simp only [isSpace, Bool.or_eq_true, decide_eq_true_eq] at h
  rcases h with ((rfl | rfl) | rfl) | rfl <;> decide

theorem begin_of_isBare {c : Char} (h : isBare c) (found : List Token) :
    begin found c = some ⟨.bare [c], found⟩ := by
  have hspace : isSpace c = false := by
    cases hs : isSpace c with
    | false => rfl
    | true => simp [isBare_of_isSpace hs] at h
  have hquote : c ≠ '"' := by
    rintro rfl
    exact absurd h (by decide)
  have hpunctuation : punctuation? c = none := by
    unfold punctuation?
    split <;> first | rfl | exact absurd h (by decide)
  simp [begin, hspace, hquote, hpunctuation, h]

/-- A run of bare characters that stands for a value is one token. -/
theorem scan_bare {cs : List Char} (hne : cs ≠ []) (hcs : cs.all isBare) {v : Value}
    (hv : scalar? cs = some v) (found : List Token) :
    ∃ s, Settled s (.scalar v :: found) ∧
      ∀ rest, (cs ++ rest).foldlM step ⟨.between, found⟩ = rest.foldlM step s := by
  obtain ⟨c, cs, rfl⟩ := List.exists_cons_of_ne_nil hne
  simp only [List.all_cons, Bool.and_eq_true] at hcs
  have hrun (ds : List Char) (hds : ds.all isBare) (seen : List Char) :
      ds.foldlM step ⟨.bare seen, found⟩ = some ⟨.bare (ds.reverse ++ seen), found⟩ := by
    induction ds generalizing seen with
    | nil => rfl
    | cons d ds ih =>
      simp only [List.all_cons, Bool.and_eq_true] at hds
      simp [step, hds.1, ih hds.2]
  refine ⟨⟨.bare (cs.reverse ++ [c]), found⟩, .bare found (by simpa using hv), fun rest => ?_⟩
  have hfirst : step ⟨.between, found⟩ c = some ⟨.bare [c], found⟩ := begin_of_isBare hcs.1 found
  rw [List.cons_append, List.foldlM_cons, hfirst]
  simp [hrun cs hcs.2]

theorem scan_blanks {pad : List Char} (hpad : ∀ c ∈ pad, isSpace c) (found : List Token)
    (rest : List Char) :
    (pad ++ rest).foldlM step ⟨.between, found⟩ = rest.foldlM step ⟨.between, found⟩ := by
  induction pad with
  | nil => rfl
  | cons c pad ih =>
    simp only [List.mem_cons, forall_eq_or_imp] at hpad
    have hstep : step ⟨.between, found⟩ c = some ⟨.between, found⟩ := by
      simp [step, begin, hpad.1]
    rw [List.cons_append, List.foldlM_cons, hstep]
    exact ih hpad.2

theorem scan_punctuation {s : Scanner} {found : List Token} (h : Settled s found) {c : Char}
    {t : Token} (hc : punctuation? c = some t) (rest : List Char) :
    (c :: rest).foldlM step s = rest.foldlM step ⟨.between, t :: found⟩ := by
  have hnot : isBare c = false ∧ isSpace c = false ∧ c ≠ '"' := by
    unfold punctuation? at hc
    split at hc <;> first | decide | simp at hc
  have hstep : s.step c = some ⟨.between, t :: found⟩ := by
    simp [h.step_eq hnot.1, begin, hnot.2, hc]
  rw [List.foldlM_cons, hstep]
  rfl

/-- A bracket or comma behind blanks. -/
theorem scan_closing {s : Scanner} {found : List Token} (h : Settled s found) {pad : List Char}
    (hpad : ∀ c ∈ pad, isSpace c) {c : Char} {t : Token} (hc : punctuation? c = some t)
    (rest : List Char) :
    (pad ++ c :: rest).foldlM step s = rest.foldlM step ⟨.between, t :: found⟩ := by
  cases pad with
  | nil => exact scan_punctuation h hc rest
  | cons p pad =>
    simp only [List.mem_cons, forall_eq_or_imp] at hpad
    have hstep : s.step p = some ⟨.between, found⟩ := by
      simp [h.step_eq (isBare_of_isSpace hpad.1), begin, hpad.1]
    rw [List.cons_append, List.foldlM_cons, hstep]
    exact (scan_blanks hpad.2 found _).trans (scan_punctuation (.between found) hc rest)

theorem hexDigit?_digitChar : ∀ d < 16, hexDigit? (Nat.digitChar d) = some d := by decide

/-- The scanner takes the escape of a character as the character. -/
theorem scan_stringChar (c : Char) (seen : List Piece) (found : List Token) :
    (stringChar c).foldlM step ⟨.string seen, found⟩ = some ⟨.string (.char c :: seen), found⟩ := by
  unfold stringChar
  split_ifs with h₁ h₂ h₃ h₄ h₅ h₆ h₇ h₈
  iterate 7 (subst c; rfl)
  · have hhigh := hexDigit?_digitChar (c.toNat / 16) (by omega)
    have hlow := hexDigit?_digitChar (c.toNat % 16) (by omega)
    have hunit : 16 * (c.toNat / 16) + c.toNat % 16 = c.toNat := by omega
    have hpiece : Piece.ofUnit c.toNat = .char c := by
      rw [Piece.ofUnit, if_neg (by omega), Char.ofNat_toNat]
    have hzero : hexDigit? '0' = some 0 := rfl
    simp [step, hzero, hhigh, hlow, hunit, hpiece]
  · simp [step, h₁, h₂, h₈]

theorem joinPieces_chars (cs rest : List Char) :
    joinPieces ((cs.map .char).reverse) rest = some (cs ++ rest) := by
  induction cs using List.reverseRecOn generalizing rest with
  | nil => rfl
  | append_singleton cs c ih => simp [joinPieces, ih]

theorem stringChars_some (s : String) :
    stringChars (some s) = '"' :: s.toList.flatMap stringChar ++ ['"'] := rfl

theorem scan_string (s : String) (found : List Token) (rest : List Char) :
    (stringChars (some s) ++ rest).foldlM step ⟨.between, found⟩ =
      rest.foldlM step ⟨.between, .text (some s) :: found⟩ := by
  have hrun (cs : List Char) (seen : List Piece) :
      (cs.flatMap stringChar).foldlM step ⟨.string seen, found⟩ =
        some ⟨.string ((cs.map .char).reverse ++ seen), found⟩ := by
    induction cs generalizing seen with
    | nil => rfl
    | cons c cs ih => simp [scan_stringChar, ih]
  have hopen : step ⟨.between, found⟩ '"' = some ⟨.string [], found⟩ := rfl
  have hclose : step ⟨.string ((s.toList.map .char).reverse), found⟩ '"' =
      some ⟨.between, .text (some s) :: found⟩ := by
    rw [step, if_pos rfl, joinPieces_chars]
    simp
  have hquoted : stringChars (some s) ++ rest =
      '"' :: (s.toList.flatMap stringChar ++ '"' :: rest) := by simp [stringChars_some]
  rw [hquoted]
  simp only [List.foldlM_cons, List.foldlM_append, Option.bind_eq_bind, hopen, hrun, hclose,
    Option.bind_some, List.append_nil]

section
variable {l : Layout} (hl : l.Blank)
include hl

mutual
/-- The scanner finds the tokens of a value where the value was written. -/
theorem scan_write : ∀ (v : Value) (depth : Nat) (found : List Token), v.legible →
    ∃ s, Settled s (v.tokens.reverse ++ found) ∧ ∀ rest,
      (v.write l depth rest).foldlM step ⟨.between, found⟩ = rest.foldlM step s
  | .null, _, found, _ => scan_bare (by decide) (by decide) rfl found
  | .bool true, _, found, _ => scan_bare (by decide) (by decide) rfl found
  | .bool false, _, found, _ => scan_bare (by decide) (by decide) rfl found
  | .number n, _, found, _ => by
    have hne : n.chars ≠ [] := by
      obtain ⟨c, cs, hcs, -⟩ := n.exists_chars
      simp [hcs]
    have hbare : n.chars.all isBare := List.all_eq_true.2 fun _ => Number.isBare_of_mem_chars
    exact scan_bare hne hbare (scalar?_chars n) found
  | .string (some s), _, found, _ => ⟨_, .between _, fun rest => scan_string s found rest⟩
  | .array [], _, found, _ => ⟨_, .between _, fun rest => rfl⟩
  | .array (v :: vs), depth, found, h => by
    simp only [Value.legible, Value.allLegible, Bool.and_eq_true] at h
    obtain ⟨s₁, hs₁, hv⟩ := scan_write v (depth + 1) (.openArray :: found) h.1
    obtain ⟨s₂, hs₂, hvs⟩ := scan_writeItems vs (depth + 1) hs₁ h.2
    refine ⟨⟨.between, .closeArray :: ((v.tokens ++ Value.itemTokens vs).reverse ++
      .openArray :: found)⟩, ?_, fun rest => ?_⟩
    · simpa [Value.tokens] using Settled.between _
    · rw [Value.write, scan_punctuation (.between found) (t := .openArray) rfl,
        scan_blanks (hl.newline _), hv, hvs,
        scan_closing hs₂ (hl.newline _) (t := .closeArray) rfl]
      simp
  | .object [], _, found, _ => ⟨_, .between _, fun rest => rfl⟩
  | .object ((some key, v) :: ms), depth, found, h => by
    simp only [Value.legible, Value.allMembersLegible, Bool.and_eq_true] at h
    obtain ⟨s₁, hs₁, hv⟩ := scan_write v (depth + 1)
      (.colon :: .text (some key) :: .openObject :: found) h.1.2
    obtain ⟨s₂, hs₂, hms⟩ := scan_writeMembers ms (depth + 1) hs₁ h.2
    refine ⟨⟨.between, .closeObject :: ((v.tokens ++ Value.memberTokens ms).reverse ++
      .colon :: .text (some key) :: .openObject :: found)⟩, ?_, fun rest => ?_⟩
    · simpa [Value.tokens] using Settled.between _
    · rw [Value.write, scan_punctuation (.between found) (t := .openObject) rfl,
        List.append_assoc, scan_blanks (hl.newline _), scan_string,
        scan_punctuation (.between _) (t := .colon) rfl, scan_blanks hl.afterColon, hv, hms,
        scan_closing hs₂ (hl.newline _) (t := .closeObject) rfl]
      simp
theorem scan_writeItems : ∀ (vs : List Value) (depth : Nat) {s : Scanner} {found : List Token},
    Settled s found → Value.allLegible vs →
      ∃ s', Settled s' ((Value.itemTokens vs).reverse ++ found) ∧ ∀ rest,
        (Value.writeItems l depth vs rest).foldlM step s = rest.foldlM step s'
  | [], _, s, _, hs, _ => ⟨s, hs, fun _ => rfl⟩
  | v :: vs, depth, s, found, hs, h => by
    simp only [Value.allLegible, Bool.and_eq_true] at h
    obtain ⟨s₁, hs₁, hv⟩ := scan_write v depth (.comma :: found) h.1
    obtain ⟨s₂, hs₂, hvs⟩ := scan_writeItems vs depth hs₁ h.2
    refine ⟨s₂, by simpa [Value.itemTokens] using hs₂, fun rest => ?_⟩
    rw [Value.writeItems, scan_punctuation hs (t := .comma) rfl, scan_blanks (hl.newline _), hv,
      hvs]
theorem scan_writeMembers : ∀ (ms : List (Option String × Value)) (depth : Nat) {s : Scanner}
    {found : List Token}, Settled s found → Value.allMembersLegible ms →
      ∃ s', Settled s' ((Value.memberTokens ms).reverse ++ found) ∧ ∀ rest,
        (Value.writeMembers l depth ms rest).foldlM step s = rest.foldlM step s'
  | [], _, s, _, hs, _ => ⟨s, hs, fun _ => rfl⟩
  | (some key, v) :: ms, depth, s, found, hs, h => by
    simp only [Value.allMembersLegible, Bool.and_eq_true] at h
    obtain ⟨s₁, hs₁, hv⟩ := scan_write v depth (.colon :: .text (some key) :: .comma :: found) h.1.2
    obtain ⟨s₂, hs₂, hms⟩ := scan_writeMembers ms depth hs₁ h.2
    refine ⟨s₂, by simpa [Value.memberTokens] using hs₂, fun rest => ?_⟩
    rw [Value.writeMembers, scan_punctuation hs (t := .comma) rfl, List.append_assoc,
      scan_blanks (hl.newline _), scan_string, scan_punctuation (.between _) (t := .colon) rfl,
      scan_blanks hl.afterColon, hv, hms]
end

theorem tokens?_write {v : Value} (h : v.legible) (depth : Nat) :
    tokens? (v.write l depth []) = some v.tokens := by
  obtain ⟨s, hs, hv⟩ := scan_write hl v depth [] h
  have hrun : (v.write l depth []).foldlM step start = some s := hv []
  rw [tokens?, hrun, Option.bind_some, hs.finish_eq]
  simp

end

end Scanner

namespace Reader

/-- No value begins with the end of an array. -/
theorem exists_tokens (v : Value) : ∃ t ts, v.tokens = t :: ts ∧ t ≠ .closeArray := by
  cases v with
  | array vs => cases vs <;> exact ⟨_, _, rfl, nofun⟩
  | object ms =>
    cases ms with
    | nil => exact ⟨_, _, rfl, nofun⟩
    | cons m ms => exact ⟨.openObject, _, by rw [Value.tokens], nofun⟩
  | _ => exact ⟨_, _, rfl, nofun⟩

theorem read_itemOrClose (v : Value) (frames : List Frame) (rest : List Token) :
    (v.tokens ++ rest).foldlM step ⟨.itemOrClose, frames⟩ =
      (v.tokens ++ rest).foldlM step ⟨.value, frames⟩ := by
  obtain ⟨t, ts, hts, ht⟩ := exists_tokens v
  have hfirst : step ⟨.itemOrClose, frames⟩ t = step ⟨.value, frames⟩ t := by
    cases t with
    | closeArray => exact absurd rfl ht
    | _ =>
      cases frames with
      | nil => rfl
      | cons f frames => cases f <;> rfl
  rw [hts, List.cons_append, List.foldlM_cons, List.foldlM_cons, hfirst]

mutual
/-- The reader builds a value from its tokens. -/
theorem read_tokens : ∀ (v : Value) (frames : List Frame) (rest : List Token),
    (v.tokens ++ rest).foldlM step ⟨.value, frames⟩ = rest.foldlM step ⟨.rest v, frames⟩
  | .null, _, _ => rfl
  | .bool _, _, _ => rfl
  | .number _, _, _ => rfl
  | .string _, _, _ => rfl
  | .array [], _, _ => rfl
  | .array (v :: vs), frames, rest => by
    have hopen : step ⟨.value, frames⟩ .openArray = some ⟨.itemOrClose, .items [] :: frames⟩ := rfl
    rw [Value.tokens, List.cons_append, List.foldlM_cons, hopen]
    simp only [List.append_assoc, List.cons_append, List.nil_append]
    exact (read_itemOrClose v _ _).trans
      ((read_tokens v _ _).trans (read_itemTokens vs v [] frames rest))
  | .object [], _, _ => rfl
  | .object ((key, v) :: ms), frames, rest => by
    have hopen (ts : List Token) :
        (.openObject :: .text key :: .colon :: ts).foldlM step ⟨.value, frames⟩ =
          ts.foldlM step ⟨.value, .members [] key :: frames⟩ := rfl
    rw [Value.tokens]
    simp only [List.append_assoc, List.cons_append, List.nil_append]
    exact (hopen _).trans ((read_tokens v _ _).trans (read_memberTokens ms key v [] frames rest))
theorem read_itemTokens : ∀ (vs : List Value) (v : Value) (done : List Value)
    (frames : List Frame) (rest : List Token),
    (Value.itemTokens vs ++ .closeArray :: rest).foldlM step ⟨.rest v, .items done :: frames⟩ =
      rest.foldlM step ⟨.rest (.array (done.reverse ++ v :: vs)), frames⟩
  | [], v, done, frames, rest => by
    have hclose : step ⟨.rest v, .items done :: frames⟩ .closeArray =
        some ⟨.rest (.array (v :: done).reverse), frames⟩ := rfl
    rw [Value.itemTokens, List.nil_append, List.foldlM_cons, hclose, List.reverse_cons]
    rfl
  | u :: us, v, done, frames, rest => by
    have hcomma : step ⟨.rest v, .items done :: frames⟩ .comma =
        some ⟨.value, .items (v :: done) :: frames⟩ := rfl
    rw [Value.itemTokens, List.cons_append, List.foldlM_cons, hcomma, List.append_assoc]
    refine (read_tokens u _ _).trans ((read_itemTokens us u (v :: done) frames rest).trans ?_)
    simp
theorem read_memberTokens : ∀ (ms : List (Option String × Value)) (key : Option String)
    (v : Value) (done : List (Option String × Value)) (frames : List Frame) (rest : List Token),
    (Value.memberTokens ms ++ .closeObject :: rest).foldlM step
        ⟨.rest v, .members done key :: frames⟩ =
      rest.foldlM step ⟨.rest (.object (done.reverse ++ (key, v) :: ms)), frames⟩
  | [], key, v, done, frames, rest => by
    have hclose : step ⟨.rest v, .members done key :: frames⟩ .closeObject =
        some ⟨.rest (.object ((key, v) :: done).reverse), frames⟩ := rfl
    rw [Value.memberTokens, List.nil_append, List.foldlM_cons, hclose, List.reverse_cons]
    rfl
  | (name, u) :: ms, key, v, done, frames, rest => by
    have hcomma (ts : List Token) :
        (.comma :: .text name :: .colon :: ts).foldlM step ⟨.rest v, .members done key :: frames⟩ =
          ts.foldlM step ⟨.value, .members ((key, v) :: done) name :: frames⟩ := rfl
    rw [Value.memberTokens]
    simp only [List.append_assoc, List.cons_append]
    refine (hcomma _).trans ((read_tokens u _ _).trans
      ((read_memberTokens ms name u ((key, v) :: done) frames rest).trans ?_))
    simp
end

end Reader

namespace Value

theorem ofTokens?_tokens (v : Value) : ofTokens? v.tokens = some v := by
  have hread := Reader.read_tokens v [] []
  rw [List.append_nil] at hread
  rw [ofTokens?, Reader.start, hread]
  rfl

/-- A value is read back from what was printed of it, in any layout. -/
theorem ofChars?_write {l : Layout} (hl : l.Blank) {v : Value} (h : v.legible) (depth : Nat) :
    ofChars? (v.write l depth []) = some v := by
  rw [ofChars?, Scanner.tokens?_write hl h, Option.bind_some, ofTokens?_tokens]

theorem ofString?_compact {v : Value} (h : v.legible) : ofString? v.compact = some v := by
  rw [ofString?, compact, String.toList_ofList, ofChars?_write Layout.blank_compact h]

theorem ofString?_pretty {v : Value} (h : v.legible) : ofString? v.pretty = some v := by
  rw [ofString?, pretty, String.toList_ofList, ofChars?_write Layout.blank_pretty h]

end Value

end RichText.Json
