/-!
# Lines of a report

A report for people is a list of lines, each ended by a line feed; columns are filled up with
blanks.
-/

set_option autoImplicit false

namespace SitePublish.Report

def unlines (lines : List String) : String := String.join (lines.map fun l => l ++ "\n")

def column (width : Nat) (s : String) : String :=
  s ++ String.ofList (List.replicate (width - s.length) ' ')

end SitePublish.Report
