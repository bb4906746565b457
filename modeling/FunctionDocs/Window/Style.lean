import FunctionDocs.Text.Basic

/-!
# The look of the window

The style sheets for the dark and for the light look.
-/

namespace FunctionDocs.Window.Style

def dark : Text := "
                QWidget \x7b
                    background-color: #2e2e2e;
                    color: #ffffff;
                    font-size: 12pt;
                \x7d
                QPushButton \x7b
                    background-color: #444444;
                    color: #ffffff;
                    height: 50px;
                    font-size: 12pt;
                    border-radius: 5px;
                \x7d
                QPushButton:hover \x7b
                    background-color: #5c5c5c;
                \x7d
                QLineEdit, QTextEdit, QComboBox, QScrollArea \x7b
                    background-color: #3a3a3a;
                    color: #ffffff;
                    height: 50px;
                    font-size: 12pt;
                    border: 1px solid #666666;
                    border-radius: 5px;
                \x7d
                QLineEdit:focus, QTextEdit:focus, QComboBox:focus \x7b
                    border: 1px solid #aaaaaa;
                \x7d
                QComboBox::drop-down \x7b
                    width: 35px;
                \x7d
                QTextEdit#logOutput \x7b
                    background-color: #3a3a3a;
                    color: #ffffff;
                    font-size: 10pt;
                    border: 1px solid #666666;
                    border-radius: 5px;
                \x7d
                QLabel \x7b
                    color: #ffffff;
                    font-size: 12pt;
                \x7d
                QCheckBox \x7b
                    color: #ffffff;
                    font-size: 12pt;
                \x7d
                QGroupBox \x7b
                    font-size: 12pt;
                    border: 1px solid #666666;
                    border-radius: 5px;
                    margin: 10px;
                    padding: 10px;
                \x7d
                QTabBar::tab \x7b
                    background-color: #2e2e2e;
                    color: #cccccc;
                    font-size: 12pt;
                    padding: 5px;
                    border: 1px solid #444444;
                    border-bottom: none;
                    min-width: 50px;
                    margin-right: 2px;
                \x7d
                QTabBar::tab:selected \x7b
                    background-color: #444444;
                    color: #ffffff;
                    border: 1px solid #666666;
                    border-bottom: none;
                \x7d
                QTabBar::tab:hover \x7b
                    background-color: #3a3a3a;
                    color: #ffffff;
                \x7d
                QTabWidget::pane \x7b
                    border: 1px solid #666666;
                    top: -1px;  /* Pane an Tab anschließen */
                    background-color: #2e2e2e;
                    border-radius: 5px;
                \x7d
                QScrollArea \x7b
                    background-color: #3a3a3a;
                    border: 1px solid #666666;
                \x7d
            "

def light : Text := "
                QWidget \x7b
                    background-color: #f4f4f4;
                    color: #333333;
                    font-size: 12pt;
                \x7d
                QPushButton \x7b
                    background-color: #e2e2e2;
                    color: #333333;
                    height: 50px;
                    font-size: 12pt;
                    border-radius: 5px;
                \x7d
                QPushButton:hover \x7b
                    background-color: #c1c1c1;
                \x7d
                QLineEdit, QTextEdit, QComboBox, QScrollArea \x7b
                    background-color: #ffffff;
                    color: #333333;
                    height: 50px;
                    font-size: 12pt;
                    border: 1px solid #cccccc;
                    border-radius: 5px;
                \x7d
                QLineEdit:focus, QTextEdit:focus, QComboBox:focus \x7b
                    border: 1px solid #666666;
                \x7d
                QComboBox::drop-down \x7b
                    width: 35px;  /* Breite des Dropdown-Buttons */
                \x7d          
                QTextEdit#logOutput \x7b
                    background-color: #ffffff;  /* White background for text output */
                    color: #333333;  /* Dark text */
                    font-size: 10pt;
                    border: 1px solid #cccccc;  /* Light grey border */
                    border-radius: 5px;  /* Rounded corners */
                \x7d
                QLabel \x7b
                    color: #333333;
                    font-size: 12pt;
                \x7d
                QCheckBox \x7b
                    color: #333333;
                    font-size: 12pt;
                \x7d
                QGroupBox \x7b
                    font-size: 12pt;
                    border: 1px solid #cccccc;
                    border-radius: 5px;
                    margin: 10px;
                    padding: 10px;
                \x7d
                QTabWidget \x7b
                    background-color: #2e2e2e;
                    border: 1px solid #666666;
                \x7d
                QTabWidget::pane \x7b
                    border: none;
                \x7d            
                QTabBar::tab \x7b
                    background-color: #e2e2e2;
                    color: #333333;
                    font-size: 12pt;
                    padding: 5px;
                    border: 1px solid #cccccc;
                    border-bottom: none;
                    min-width: 50px;
                    margin-right: 2px;
                \x7d
                QTabBar::tab:selected \x7b
                    background-color: #c1c1c1;
                    color: #333333;
                    border: 1px solid #aaaaaa;
                    border-bottom: none;
                \x7d
                QTabBar::tab:hover \x7b
                    background-color: #d1d1d1;
                    color: #000000;
                \x7d
                QScrollArea \x7b
                    background-color: #ffffff;
                    border: 1px solid #cccccc;
                \x7d
            "

def sheet (isDark : Bool) : Text := if isDark then dark else light

end FunctionDocs.Window.Style
