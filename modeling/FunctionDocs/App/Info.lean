import FunctionDocs.Json.Value
import FunctionDocs.Time

/-!
# The program's own particulars

Name, version and terms of use, as they are printed and put into files.
-/

namespace FunctionDocs.App

def title : Text := "CppCodeDoc"

def version : Text := "1.0.1"

def description : Text := "Generating Documentation out of C++-Files."

def author : Text := "Jojos1220"

def fileEnding : Text := ".cppdoc"

def repository : Text := "Jojos1220/CppCodeDoc"

def repositoryPage : Text := "https://github.com/" ++ repository

def licenseShort : Text := "GPLv3-or-later"

def licenseText (now : Moment) : Text :=
  "\n" ++ title ++ " - " ++ description ++
  "\nLicensed under the GNU General Public License v3.0 or later.\nSPDX-License-Identifier: " ++ licenseShort ++
  "\nCopyright (C) " ++ Text.ofInt now.year ++ " " ++ author ++ "

This program is free software: you can redistribute it and/or modify
it under the terms of the GNU General Public License as published by
the Free Software Foundation, either version 3 of the License, or
(at your option) any later version.

This program is distributed in the hope that it will be useful,
but WITHOUT ANY WARRANTY; without even the implied warranty of
MERCHANTABILITY or FITNESS FOR A PARTICULAR PURPOSE.
See the GNU General Public License for more details.

You should have received a copy of the GNU General Public License
along with this program. If not, see <https://www.gnu.org/licenses/>.
"

/-- The terms of use at the head of a file, with the year. -/
def licenseHeader (now : Moment) : Text :=
  "# " ++ title ++ " — Licensed under the GNU General Public License v3.0 (" ++ licenseShort ++
  ")\n# SPDX-License-Identifier: " ++ licenseShort ++ "\n# Copyright (C) " ++ Text.ofInt now.year ++ " " ++ author ++
  "\n# See https://www.gnu.org/licenses/gpl-3.0.html"

def particulars : Value :=
  .obj [("version", .str version), ("title", .str title), ("description", .str description), ("author", .str author)]

end FunctionDocs.App
