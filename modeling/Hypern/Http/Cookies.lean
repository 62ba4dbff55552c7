import Hypern.Http.Multipart
import Hypern.Http.Request
import Hypern.Lib.Table
import Hypern.Lib.Text

/-! The two readers of the `Cookie` header: one looks for a name, the other makes a map. -/

namespace Hypern.Http

open Lib

/-- `cookie.trim().splitn(2, '=')`, if that has two parts. -/
def cookieParts (cookie : List Char) : Option (String × String) :=
  (splitOnce '=' (trim cookie)).map fun parts => (String.ofList parts.1, String.ofList parts.2)

namespace Request

variable (c : Crates) (r : Request) (name : String)

def cookie : Option String :=
  (r.headers.get c "cookie").bind fun cookies =>
    (cookies.toList.splitOn ';').findSome? fun cookie =>
      match cookieParts cookie with
      | some parts => if parts.1 = name then some parts.2 else none
      | none => none

def cookies : StrMap :=
  match r.headers.get c "cookie" with
  | some cookies => (cookies.toList.splitOn ';').foldl (fun result cookie =>
      match cookieParts cookie with
      | some parts => result.insert parts.1 parts.2
      | none => result) ∅
  | none => ∅

/-- The values that a header gives for a name, from left to right. -/
def cookieValues (header : String) : List String :=
  Table.valuesOf name ((header.toList.splitOn ';').filterMap cookieParts)

variable {c r name} {header : String}

/-- The first reader stops at the first value. -/
theorem cookie_of_header (h : r.headers.get c "cookie" = some header) :
    r.cookie c name = (cookieValues name header).head? := by
  have hfind : ∀ pieces : List (List Char),
      (pieces.findSome? fun cookie =>
        match cookieParts cookie with
        | some parts => if parts.1 = name then some parts.2 else none
        | none => none) =
      (pieces.filterMap cookieParts).findSome? fun parts =>
        if parts.1 = name then some parts.2 else none := by
    intro pieces
    induction pieces with
    | nil => rfl
    | cons piece pieces ih =>
      rw [List.findSome?_cons, List.filterMap_cons, ih]
      cases cookieParts piece <;> rfl
  unfold cookie cookieValues
  rw [h, Option.bind_some, hfind]
  exact Table.findSome?_key _ name

/-- The second one goes on, and overwrites. -/
theorem cookies_of_header (h : r.headers.get c "cookie" = some header) :
    (r.cookies c).lookup name = (cookieValues name header).getLast? := by
  have hfold : ∀ (pieces : List (List Char)) (result : StrMap),
      pieces.foldl (fun result cookie =>
        match cookieParts cookie with
        | some parts => result.insert parts.1 parts.2
        | none => result) result =
      (pieces.filterMap cookieParts).foldl (fun result parts => result.insert parts.1 parts.2)
        result := by
    intro pieces
    induction pieces with
    | nil => exact fun _ => rfl
    | cons piece pieces ih =>
      intro result
      rw [List.foldl_cons, ih, List.filterMap_cons]
      cases cookieParts piece <;> rfl
  unfold cookies cookieValues
  rw [h]
  dsimp only
  rw [hfold, Table.lookup_foldl_insert, AList.lookup_empty, Option.or_none]

/-- The readers agree on a name exactly if its first value in the header is its last. -/
theorem cookie_readers_agree_iff (c : Crates) (r : Request) (name : String) :
    r.cookie c name = (r.cookies c).lookup name ↔
      ∀ header, r.headers.get c "cookie" = some header →
        (cookieValues name header).head? = (cookieValues name header).getLast? := by
  cases h : r.headers.get c "cookie" with
  | none =>
    have hone : r.cookie c name = none := by
      unfold cookie
      rw [h, Option.bind_none]
    have hmap : (r.cookies c).lookup name = none := by
      unfold cookies
      rw [h]
      rfl
    exact iff_of_true (hone.trans hmap.symm) nofun
  | some header =>
    rw [cookie_of_header h, cookies_of_header h]
    constructor
    · intro hsame other hother
      rw [← Option.some.inj hother]
      exact hsame
    · intro hsame
      exact hsame header rfl

/-- Entries without a name, without a value and with two equals signs. -/
example : cookieValues "" "a=1; =2 ;b; c=3=4" = ["2"] ∧ cookieValues "b" "a=1; =2 ;b; c=3=4" = [] ∧
    cookieValues "c" "a=1; =2 ;b; c=3=4" = ["3=4"] := by
  decide +kernel

theorem repeated_cookie_differs :
    ¬ ∀ (c : Crates) (r : Request) (name : String), r.cookie c name = (r.cookies c).lookup name := by
  intro h
  have hsame := h asciiCase (.fromAxum asciiCase
    ⟨some ("/", none), "GET", [("cookie", utf8 "sid=new; sid=old")], none⟩) "sid"
  exact absurd hsame (by decide +kernel)

end Request

end Hypern.Http
