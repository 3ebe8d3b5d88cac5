import ProxyLoom.Lib.NetHttp

/-!
# Dial addresses

An address to dial is a host and a port in one text: a host with colons stands in brackets. Taking
the text apart fails where it is ambiguous, and gives back what was put in otherwise.
-/

namespace HostPort

open NetHttp List

/-- `net.JoinHostPort`. -/
def joinHostPort (host port : String) : String :=
  if host.toList.contains ':' then "[" ++ host ++ "]:" ++ port else host ++ ":" ++ port

def join (host port : List Char) : List Char :=
  if ':' ∈ host then '[' :: (host ++ ']' :: ':' :: port) else host ++ ':' :: port

theorem toList_joinHostPort (host port : String) :
    (joinHostPort host port).toList = join host.toList port.toList := by
  unfold joinHostPort join
  by_cases hcolon : ':' ∈ host.toList
  · rw [if_pos (contains_iff_mem.mpr hcolon), if_pos hcolon]
    simp only [String.toList_append]
    simp
  · rw [if_neg (fun h => hcolon (contains_iff_mem.mp h)), if_neg hcolon]
    simp only [String.toList_append]
    simp

/-- The text between a leading bracket and the first closing one. -/
def bracketed (host : List Char) : List Char := (host.drop 1).takeWhile (· ≠ ']')

/-- `net.SplitHostPort`. -/
def split? (text : List Char) : Option (List Char × List Char) :=
  match splitLastColon text with
  | (_, []) => none
  | (host, _ :: port) =>
    if text.head? = some '[' then
      -- the first closing bracket stands right before the last colon
      if host = '[' :: (bracketed host ++ [']']) ∧ '[' ∉ text.drop 1 ∧ ']' ∉ port then
        some (bracketed host, port)
      else none
    else if ':' ∈ host ∨ '[' ∈ text ∨ ']' ∈ text then none
    else some (host, port)

/-- The host that is dialled: brackets around a name without colons are lost. -/
def unbracket (host : List Char) : List Char :=
  if ':' ∉ host ∧ host = '[' :: (bracketed host ++ [']']) then bracketed host else host

/-- A port without colons is found behind the last one. -/
theorem splitLastColon_append (host : List Char) {port : List Char} (hport : ':' ∉ port) :
    splitLastColon (host ++ ':' :: port) = (host, ':' :: port) := by
  have htail : ((host ++ ':' :: port).reverse.takeWhile (· != ':')).reverse = port := by
    have hrev : (host ++ ':' :: port).reverse = port.reverse ++ ':' :: host.reverse := by simp
    have hall : ∀ c ∈ port.reverse, (c != ':') = true := by
      intro c hc
      rw [bne_iff_ne]
      rintro rfl
      exact hport (mem_reverse.mp hc)
    rw [hrev, takeWhile_append_of_pos hall, takeWhile_cons_of_neg (by simp)]
    simp
  unfold splitLastColon
  simp only [htail]
  have hlen : port.length < (host ++ ':' :: port).length := by
    rw [length_append, length_cons]
    omega
  rw [if_pos hlen]
  congr 1
  have htake : (host ++ ':' :: port).length - port.length - 1 = host.length := by
    rw [length_append, length_cons]
    omega
  rw [htake, take_left]

/-- **What is taken apart was put together**, up to brackets around a name. -/
theorem split?_join {host port host' port' : List Char} (hport : ':' ∉ port)
    (h : split? (join host port) = some (host', port')) :
    host' = unbracket host ∧ port' = port := by
  unfold join at h
  split_ifs at h with hcolon
  · have hunbracket : unbracket host = host := if_neg fun hno => hno.1 hcolon
    have hsplit : splitLastColon ('[' :: (host ++ ']' :: ':' :: port)) =
        ('[' :: (host ++ [']']), ':' :: port) := by
      have := splitLastColon_append ('[' :: (host ++ [']'])) hport
      simpa using this
    unfold split? at h
    simp only [hsplit, List.head?_cons, if_true] at h
    split_ifs at h with hok
    obtain ⟨hhost, -, -⟩ := hok
    simp only [List.cons.injEq, true_and, append_cancel_right_eq] at hhost
    cases h
    exact ⟨hhost.symm.trans hunbracket.symm, rfl⟩
  · unfold split? at h
    simp only [splitLastColon_append host hport] at h
    split_ifs at h with hhead hok
    · cases h
      exact ⟨(if_pos ⟨hcolon, hok.1⟩).symm, rfl⟩
    · cases h
      refine ⟨(if_neg fun hno => ?_).symm, rfl⟩
      apply hhead
      rw [hno.2]
      rfl

theorem not_mem_splitHostPort (text : String) : ':' ∉ (splitHostPort text).2.toList := by
  unfold splitHostPort
  cases splitLastColon text.toList with
  | mk host port =>
  simp only
  split_ifs with hvalid
  · rw [String.toList_ofList]
    cases port with
    | nil => exact not_mem_nil
    | cons c cs =>
      intro hmem
      have hdigits : cs.all Char.isDigit = true :=
        (Bool.and_eq_true_iff.mp (Bool.and_eq_true_iff.mp hvalid).2).2
      exact absurd (all_eq_true.mp hdigits ':' hmem) (by decide)
  · rw [String.toList_ofList]
    exact not_mem_nil

end HostPort
